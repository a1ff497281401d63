import SchemaGraph.Proofs.Reference.Prefixes

/-! # The grammar of tokens

A token is a base, perhaps an arity suffix, and any number of array markers. Of a text one can tell
in one way at most which of its characters are which, and just the texts of this form are read. An
array token gives up one marker at a time: its text less the last marker is a token again, so its
element is read in as many steps as there are markers, and no step fails (`readElement_marked`). -/

namespace SchemaGraph
namespace Token

variable {c : Char} {cs base base' suffix suffix' : List Char} {n m rank rank' : Nat}
  {name raw text : String} {t : Token} {e : DecodeError}

/-- The characters that delimit something in a token or in a displayed reference. -/
def delimiters : List Char := [arityMark, '[', ']', '<', '>', ',']

/-- The text is a base, a suffix that declares `n` arguments, and `rank` array markers. The base
has neither blank characters nor delimiters, and the suffix for no arguments may be left out. -/
structure Spells (cs base suffix : List Char) (n rank : Nat) : Prop where
  base_ne_nil : base ≠ []
  base_plain : ∀ c ∈ base, Text.isBlank c = false ∧ c ∉ delimiters
  isSuffix : IsSuffix suffix n
  arity_lt : n < Nat.pow 2 64
  text : cs = base ++ suffix ++ marks rank

theorem isBaseChar_iff : isBaseChar c = true ↔ Text.isBlank c = false ∧ c ∉ delimiters := by
  simp only [isBaseChar, delimiters, Bool.not_eq_true', Bool.or_eq_false_iff, beq_eq_false_iff_ne,
    List.mem_cons, List.not_mem_nil, or_false, not_or]
  constructor
  · rintro ⟨⟨⟨⟨⟨⟨h₁, h₂⟩, h₃⟩, h₄⟩, h₅⟩, h₆⟩, hblank⟩
    exact ⟨hblank, h₁, h₂, h₃, h₄, h₅, h₆⟩
  · rintro ⟨hblank, h₁, h₂, h₃, h₄, h₅, h₆⟩
    exact ⟨⟨⟨⟨⟨⟨h₁, h₂⟩, h₃⟩, h₄⟩, h₅⟩, h₆⟩, hblank⟩

theorem Spells.isBase (h : Spells cs base suffix n rank) : IsBase base :=
  ⟨h.base_ne_nil, fun c hc => isBaseChar_iff.mpr (h.base_plain c hc)⟩

/-! ## One decomposition -/

theorem IsSuffix.arity_unique (h : IsSuffix suffix n) (h' : IsSuffix suffix m) : n = m := by
  cases h with
  | none => cases h'; rfl
  | digits => cases h'; rfl

theorem IsSuffix.not_mem_bracket (h : IsSuffix suffix n) : '[' ∉ suffix := by
  cases h with
  | none => exact List.not_mem_nil
  | digits _ hds =>
    intro hmem
    rcases List.mem_cons.mp hmem with hmark | hmem
    · exact absurd hmark (by decide)
    · exact absurd (hds '[' hmem) (by decide)

/-- Markers begin at the first bracket. -/
theorem append_marks_inj (h : '[' ∉ cs) (h' : '[' ∉ base)
    (he : cs ++ marks rank = base ++ marks rank') : cs = base ∧ rank = rank' := by
  have hne : ∀ {l : List Char}, '[' ∉ l → ∀ c ∈ l, (c != '[') = true := by
    intro l hl c hc
    simp only [bne_iff_ne]
    rintro rfl
    exact hl hc
  have htake := congrArg (List.takeWhile (· != '[')) he
  rw [List.takeWhile_append_of_pos (hne h), List.takeWhile_append_of_pos (hne h'),
    takeWhile_marks rfl, takeWhile_marks rfl, List.append_nil, List.append_nil] at htake
  subst htake
  have hmarks := markers?_eq_some.mpr (List.append_cancel_left he)
  rw [markers?_eq_some.mpr rfl] at hmarks
  exact ⟨rfl, Option.some.inj hmarks⟩

theorem Spells.not_mem_bracket (h : Spells cs base suffix n rank) : '[' ∉ base ++ suffix := by
  rw [List.mem_append, not_or]
  exact ⟨h.isBase.not_mem rfl, h.isSuffix.not_mem_bracket⟩

/-- A text is taken apart in one way. -/
theorem Spells.unique (h : Spells cs base suffix n rank) (h' : Spells cs base' suffix' m rank') :
    base' = base ∧ suffix' = suffix ∧ m = n ∧ rank' = rank := by
  obtain ⟨hname, rfl⟩ := append_marks_inj h'.not_mem_bracket h.not_mem_bracket
    (h'.text.symm.trans h.text)
  obtain ⟨rfl, rfl⟩ := append_inj h'.isBase h'.isSuffix h.isBase h.isSuffix hname
  exact ⟨rfl, rfl, h'.isSuffix.arity_unique h.isSuffix, rfl⟩

/-! ## What is read -/

/-- A text is read as a token just if the characters of it spell the token. -/
theorem parse_eq_ok_iff_spells :
    parse raw = .ok t ↔ ∃ base suffix, Spells (Text.trim raw.toList) base suffix t.arity t.rank ∧
      t.name.toList = base ++ suffix := by
  have htext : Text.trimmed raw = marked t.name t.rank ↔
      Text.trim raw.toList = t.name.toList ++ marks t.rank := by
    rw [← toList_marked, Text.trimmed, ← String.toList_inj, String.toList_ofList]
  rw [parse_eq_ok_iff, htext]
  constructor
  · rintro ⟨⟨base, suffix, hb, hs, hname⟩, hn, hraw⟩
    exact ⟨base, suffix,
      ⟨hb.1, fun c hc => isBaseChar_iff.mp (hb.2 c hc), hs, hn, hname ▸ hraw⟩, hname⟩
  · rintro ⟨base, suffix, h, hname⟩
    exact ⟨⟨base, suffix, h.isBase, h.isSuffix, hname⟩, h.arity_lt, hname ▸ h.text⟩

theorem Spells.parse (h : Spells (Text.trim raw.toList) base suffix n rank) :
    parse raw = .ok ⟨.ofList (base ++ suffix), n, rank⟩ :=
  parse_eq_ok_iff_spells.mpr ⟨base, suffix, h, String.toList_ofList⟩

/-! ## One marker at a time -/

theorem isArray_iff : t.isArray = true ↔ 0 < t.rank := by
  rw [isArray, bne_iff_ne, Nat.pos_iff_ne_zero]

theorem parse_marked (hname : IsName name n) (hn : n < Nat.pow 2 64) (rank : Nat) :
    parse (marked name rank) = .ok ⟨name, n, rank⟩ :=
  parse_eq_ok_iff.mpr ⟨hname, hn, hname.trimmed_marked rank⟩

/-- The element's text of a token that was read is read as the same token with one marker less. -/
theorem parse_elementText (h : parse raw = .ok t) :
    parse t.elementText = .ok ⟨t.name, t.arity, t.rank - 1⟩ := by
  obtain ⟨hname, hn, -⟩ := parse_eq_ok_iff.mp h
  exact parse_marked hname hn _

theorem length_elementText_lt (h : parse raw = .ok t) (harray : t.isArray = true) :
    t.elementText.length < raw.length := by
  obtain ⟨-, -, hraw⟩ := parse_eq_ok_iff.mp h
  have htrim : (Text.trimmed raw).length ≤ raw.length := by
    rw [← String.length_toList, ← String.length_toList, Text.trimmed, String.toList_ofList,
      Text.trim, List.length_reverse]
    calc _ ≤ _ := (List.dropWhile_suffix Text.isBlank).length_le
      _ = _ := List.length_reverse
      _ ≤ _ := (List.dropWhile_suffix Text.isBlank).length_le
  obtain ⟨rank, hrank⟩ := Nat.exists_eq_succ_of_ne_zero (isArray_iff.mp harray).ne'
  rw [hraw, hrank, marked, String.length_append] at htrim
  rw [elementText, hrank, Nat.succ_sub_one]
  have hmark : "[]".length = 2 := rfl
  omega

end Token

namespace Reference

open Token (marked elementText Spells IsName)

variable {name raw text : String} {t : Token} {n rank : Nat}

/-- Reads the text of an array's element: a marker at its end is taken off and makes an array of
what the rest is read as. -/
def readElement (text : String) : Except DecodeError Reference :=
  match _h : Token.parse text with
  | .error e => .error e
  | .ok t =>
    if _harray : t.isArray = true then (readElement t.elementText).map .array
    else .ok (.leaf t.name)
termination_by text.length
decreasing_by exact Token.length_elementText_lt ‹_› ‹_›

theorem readElement_of_parse (h : Token.parse text = .ok t) :
    readElement text =
      if t.isArray = true then (readElement t.elementText).map .array else .ok (.leaf t.name) := by
  rw [readElement]
  split
  · next h' => rw [h] at h'; cases h'
  · next h' => rw [h] at h'; cases h'; rfl

/-- A name with markers is read as an array for each of them. -/
theorem readElement_marked (hname : IsName name n) (hn : n < Nat.pow 2 64) (rank : Nat) :
    readElement (marked name rank) = .ok ((leaf name).arrays rank) := by
  induction rank with
  | zero => rw [readElement_of_parse (Token.parse_marked hname hn 0)]; rfl
  | succ rank ih =>
    have hmap : (readElement (marked name rank)).map array =
        .ok ((leaf name).arrays (rank + 1)) := by rw [ih]; rfl
    rw [readElement_of_parse (Token.parse_marked hname hn (rank + 1))]
    exact hmap

/-- An array token is read as the array of its element. -/
theorem decode_array (h : Token.parse raw = .ok t) (harray : t.isArray = true)
    (hgeneric : t.isGeneric = false) :
    decode [raw] = .ok (some ((leaf t.name).arrays t.rank)) := by
  refine decode_eq_some_iff_readMany.mpr ⟨List.cons_ne_nil _ _, ?_⟩
  exact readMany_cons_eq_ok.mpr ⟨t, h, .inl ⟨harray, hgeneric, [], rfl, rfl⟩⟩

end Reference

namespace Token

/-- What there is to say of a token and the text that it was read from. -/
structure Reading (raw : String) (t : Token) (base suffix : List Char) : Prop where
  spells : Spells (Text.trim raw.toList) base suffix t.arity t.rank
  unique : ∀ {base' suffix' n rank}, Spells (Text.trim raw.toList) base' suffix' n rank →
    base' = base ∧ suffix' = suffix ∧ n = t.arity ∧ rank = t.rank
  isArray : t.isArray = true ↔ 0 < t.rank
  /-- The text less one marker, if it has any. -/
  elementText : t.elementText.toList = base ++ suffix ++ marks (t.rank - 1)
  /-- The element of an array token is a token with one marker less. -/
  again : 0 < t.rank →
    ∃ t', parse t.elementText = .ok t' ∧ t'.arity = t.arity ∧ t'.rank = t.rank - 1
  /-- Read marker by marker, the element is an array for each marker that is left. -/
  readElement : 0 < t.rank →
    Reference.readElement t.elementText =
      .ok ((Reference.leaf (.ofList (base ++ suffix))).arrays (t.rank - 1))
  /-- That is how array tokens are decoded. -/
  decode : 0 < t.rank → t.arity = 0 →
    Reference.decode [raw] = (Reference.readElement t.elementText).map fun r => some (.array r)
  stripArity : t.rank = 0 → stripArity t.elementText = .ofList base

theorem Reading.of_spells {raw : String} {base suffix : List Char} {n rank : Nat}
    (h : Spells (Text.trim raw.toList) base suffix n rank) :
    Reading raw ⟨.ofList (base ++ suffix), n, rank⟩ base suffix := by
  have hparse := h.parse
  have hname : IsName (.ofList (base ++ suffix)) n :=
    ⟨base, suffix, h.isBase, h.isSuffix, String.toList_ofList⟩
  have hread := Reference.readElement_marked hname h.arity_lt (rank - 1)
  refine ⟨h, h.unique, isArray_iff, ?_, ?_, fun _ => hread, ?_, ?_⟩
  · rw [Token.elementText, toList_marked, String.toList_ofList]
  · exact fun _ => ⟨_, parse_elementText hparse, rfl, rfl⟩
  · rintro hrank rfl
    obtain ⟨rank, rfl⟩ := Nat.exists_eq_succ_of_ne_zero hrank.ne'
    rw [Reference.decode_array hparse (isArray_iff.mpr hrank) rfl, Token.elementText, hread]
    rfl
  · rintro rfl
    rw [← String.toList_inj, String.toList_ofList]
    exact stripArity_append h.isBase h.isSuffix String.toList_ofList

/-- The grammar of tokens. A text that, without blank ends, is spelled in it is read, as what it
spells; every other text is malformed. -/
theorem parse_grammar (raw : String) :
    (∃ t base suffix, parse raw = .ok t ∧ Reading raw t base suffix) ∨
      (∀ base suffix n rank, ¬ Spells (Text.trim raw.toList) base suffix n rank) ∧
        ∃ e, parse raw = .error e ∧ e.isMalformed = true := by
  cases hparse : parse raw with
  | ok t =>
    obtain ⟨name, arity, rank⟩ := t
    obtain ⟨base, suffix, h, -⟩ := parse_eq_ok_iff_spells.mp hparse
    rw [h.parse] at hparse
    cases hparse
    exact .inl ⟨_, base, suffix, rfl, .of_spells h⟩
  | error e =>
    refine .inr ⟨fun base suffix n rank h => ?_, e, rfl, isMalformed_of_parse hparse⟩
    rw [h.parse] at hparse
    cases hparse

/-- Of all decimal digits a suffix takes those of ASCII alone. -/
example : parse " List`٣[]" = .error (.arityOutOfRange "List`٣[]") := by decide

end Token
end SchemaGraph
