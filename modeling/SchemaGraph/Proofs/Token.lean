import Mathlib.Data.List.TakeWhile
import SchemaGraph.Token

/-! # Names in tokens

A name in a token is a base and perhaps an arity suffix. The characters of the two do not mix, so
a name is taken apart in one way only, and dropping the suffix gives the base back. A token is read
from its name with array markers behind it, and from nothing else. -/

namespace SchemaGraph
namespace Token

variable {c : Char} {cs base base' suffix suffix' : List Char} {n m rank : Nat}
  {name raw : String} {t : Token}

/-- A base: at least one character, none of which delimits anything. -/
def IsBase (cs : List Char) : Prop := cs ≠ [] ∧ ∀ c ∈ cs, isBaseChar c = true

instance : DecidablePred IsBase := fun cs =>
  decidable_of_iff (cs ≠ [] ∧ cs.all isBaseChar = true) (and_congr_right fun _ => List.all_eq_true)

/-- What may stand behind the base of a type that takes `n` arguments. -/
inductive IsSuffix : List Char → Nat → Prop
  | none : IsSuffix [] 0
  | digits {ds : List Char} (hne : ds ≠ []) (hds : ∀ c ∈ ds, c.isDigit = true) :
    IsSuffix (arityMark :: ds) (numeral ds)

/-- The name of a type that takes `n` arguments. -/
def IsName (name : String) (n : Nat) : Prop :=
  ∃ base suffix, IsBase base ∧ IsSuffix suffix n ∧ name.toList = base ++ suffix

theorem isBaseChar_arityMark : isBaseChar arityMark = false := rfl

theorem isDigit_arityMark : arityMark.isDigit = false := rfl

theorem ne_of_isBaseChar {d : Char} (h : isBaseChar c = true) (hd : isBaseChar d = false) :
    c ≠ d := by
  rintro rfl
  rw [h] at hd
  cases hd

theorem isBlank_of_isBaseChar (h : isBaseChar c = true) : Text.isBlank c = false := by
  simp only [isBaseChar, Bool.not_eq_true', Bool.or_eq_false_iff] at h
  exact h.2

theorem isBlank_of_isDigit (h : c.isDigit = true) : Text.isBlank c = false := by
  simp only [Char.isDigit, Bool.and_eq_true, decide_eq_true_eq] at h
  have h₁ : 48 ≤ c.toNat := UInt32.le_iff_toNat_le.mp h.1
  have h₂ : c.toNat ≤ 57 := UInt32.le_iff_toNat_le.mp h.2
  simp [Text.isBlank]
  omega

theorem IsBase.not_mem {d : Char} (h : IsBase cs) (hd : isBaseChar d = false) : d ∉ cs :=
  fun hm => ne_of_isBaseChar (h.2 d hm) hd rfl

theorem IsName.of_base (h : IsBase name.toList) : IsName name 0 :=
  ⟨name.toList, [], h, .none, (List.append_nil _).symm⟩

/-! ## Taking a name apart -/

theorem IsSuffix.takeWhile_eq_nil (h : IsSuffix suffix n) : suffix.takeWhile isBaseChar = [] := by
  cases h with
  | none => rfl
  | digits => exact List.takeWhile_cons_of_neg (by simp [isBaseChar_arityMark])

/-- A name has one base and one suffix. -/
theorem append_inj (hb : IsBase base) (hs : IsSuffix suffix n) (hb' : IsBase base')
    (hs' : IsSuffix suffix' m) (h : base ++ suffix = base' ++ suffix') :
    base = base' ∧ suffix = suffix' := by
  have ht := congrArg (List.takeWhile isBaseChar) h
  rw [List.takeWhile_append_of_pos hb.2, List.takeWhile_append_of_pos hb'.2,
    hs.takeWhile_eq_nil, hs'.takeWhile_eq_nil, List.append_nil, List.append_nil] at ht
  subst ht
  exact ⟨rfl, List.append_cancel_left h⟩

theorem IsName.unique (h : IsName name n) (h' : IsName name m) : n = m := by
  obtain ⟨base, suffix, hb, hs, he⟩ := h
  obtain ⟨base', suffix', hb', hs', he'⟩ := h'
  obtain ⟨rfl, rfl⟩ := append_inj hb hs hb' hs' (he.symm.trans he')
  cases hs with
  | none => cases hs'; rfl
  | digits => cases hs'; rfl

theorem IsName.not_blank (h : IsName name n) : ∀ c ∈ name.toList, Text.isBlank c = false := by
  obtain ⟨base, suffix, hb, hs, he⟩ := h
  intro c hc
  rw [he, List.mem_append] at hc
  rcases hc with hc | hc
  · exact isBlank_of_isBaseChar (hb.2 c hc)
  · cases hs with
    | none => cases hc
    | digits _ hds =>
      rcases List.mem_cons.mp hc with rfl | hc
      · decide
      · exact isBlank_of_isDigit (hds c hc)

theorem trimmed_eq_self {s : String} (h : ∀ c ∈ s.toList, Text.isBlank c = false) :
    Text.trimmed s = s := by
  have hdrop : ∀ cs : List Char, (∀ c ∈ cs, Text.isBlank c = false) →
      cs.dropWhile Text.isBlank = cs := by
    intro cs hcs
    cases cs with
    | nil => rfl
    | cons c cs => exact List.dropWhile_cons_of_neg (by simp [hcs c List.mem_cons_self])
  have hrev : ∀ c ∈ s.toList.reverse, Text.isBlank c = false :=
    fun c hc => h c (List.mem_reverse.mp hc)
  rw [Text.trimmed, Text.trim, hdrop _ h, hdrop _ hrev, List.reverse_reverse,
    String.ofList_toList]

theorem IsName.trimmed (h : IsName name n) : Text.trimmed name = name :=
  trimmed_eq_self h.not_blank

/-! ## Array markers -/

/-- The characters of array markers. -/
def marks : Nat → List Char
  | 0 => []
  | rank + 1 => '[' :: ']' :: marks rank

theorem marks_succ (rank : Nat) : marks (rank + 1) = marks rank ++ ['[', ']'] := by
  induction rank with
  | zero => rfl
  | succ rank ih => exact congrArg (fun cs => '[' :: ']' :: cs) ih

theorem toList_marked (name : String) (rank : Nat) :
    (marked name rank).toList = name.toList ++ marks rank := by
  induction rank with
  | zero => exact (List.append_nil _).symm
  | succ rank ih =>
    have hmark : "[]".toList = ['[', ']'] := rfl
    rw [marked, String.toList_append, ih, hmark, marks_succ, List.append_assoc]

theorem isBlank_of_mem_marks (h : c ∈ marks rank) : Text.isBlank c = false := by
  induction rank with
  | zero => cases h
  | succ rank ih =>
    rw [marks, List.mem_cons, List.mem_cons] at h
    rcases h with rfl | rfl | h
    · rfl
    · rfl
    · exact ih h

theorem IsName.trimmed_marked (h : IsName name n) (rank : Nat) :
    Text.trimmed (marked name rank) = marked name rank := by
  apply trimmed_eq_self
  intro c hc
  rw [toList_marked, List.mem_append] at hc
  exact hc.elim (h.not_blank c) isBlank_of_mem_marks

theorem markers?_eq_some : markers? cs = some rank ↔ cs = marks rank := by
  constructor
  · intro h
    fun_induction markers? cs generalizing rank with
    | case1 => cases h; rfl
    | case2 cs ih =>
      obtain ⟨rank, hrank, rfl⟩ := Option.map_eq_some_iff.mp h
      rw [ih hrank, marks]
    | case3 => cases h
  · rintro rfl
    induction rank with
    | zero => rfl
    | succ rank ih => rw [marks, markers?, ih, Option.map_some]

theorem takeWhile_marks {p : Char → Bool} (hp : p '[' = false) (rank : Nat) :
    (marks rank).takeWhile p = [] := by
  cases rank with
  | zero => rfl
  | succ rank => exact List.takeWhile_cons_of_neg (by simp [hp])

theorem dropWhile_marks {p : Char → Bool} (hp : p '[' = false) (rank : Nat) :
    (marks rank).dropWhile p = marks rank := by
  cases rank with
  | zero => rfl
  | succ rank => exact List.dropWhile_cons_of_neg (by simp [hp])

/-! ## Reading tokens -/

theorem cutSuffix_marks (rank : Nat) : cutSuffix (marks rank) = (none, marks rank) := by
  cases rank with
  | zero => rfl
  | succ rank => rfl

theorem cutSuffix_digits {ds : List Char} (hne : ds ≠ []) (hds : ∀ c ∈ ds, c.isDigit = true)
    (rank : Nat) : cutSuffix (arityMark :: ds ++ marks rank) = (some ds, marks rank) := by
  have hdecimal : ∀ c ∈ ds, Text.isDecimalDigit c = true :=
    fun c hc => Text.isDecimalDigit_of_isDigit (hds c hc)
  have hmark : Text.isDecimalDigit '[' = false := by decide
  have htake : (ds ++ marks rank).takeWhile Text.isDecimalDigit = ds := by
    rw [List.takeWhile_append_of_pos hdecimal, takeWhile_marks hmark, List.append_nil]
  have hdrop : (ds ++ marks rank).dropWhile Text.isDecimalDigit = marks rank := by
    rw [List.dropWhile_append_of_pos hdecimal, dropWhile_marks hmark]
  have hempty : ds.isEmpty = false := List.isEmpty_eq_false_iff.mpr hne
  simp [cutSuffix, htake, hdrop, hempty]

theorem cutSuffix_eq_none {rest : List Char} (h : cutSuffix cs = (none, rest)) : cs = rest := by
  cases cs with
  | nil => cases h; rfl
  | cons c cs =>
    rw [cutSuffix] at h
    split at h
    · cases h
    · cases h; rfl

theorem cutSuffix_eq_some {ds rest : List Char} (h : cutSuffix cs = (some ds, rest)) :
    ds ≠ [] ∧ cs = arityMark :: (ds ++ rest) := by
  cases cs with
  | nil => cases h
  | cons c cs =>
    rw [cutSuffix] at h
    split at h
    · next hc =>
      simp only [Bool.and_eq_true, beq_iff_eq, Bool.not_eq_true', List.isEmpty_eq_false_iff] at hc
      cases h
      exact ⟨hc.2, by rw [hc.1, List.takeWhile_append_dropWhile]⟩
    · cases h

/-- The digits of a suffix are read back, unless they stand for too large a number. -/
theorem arity?_eq_some {ds : List Char} :
    arity? ds = some n ↔ (∀ c ∈ ds, c.isDigit = true) ∧ numeral ds = n ∧ n < Nat.pow 2 64 := by
  simp only [arity?, Option.ite_none_right_eq_some, Bool.and_eq_true, decide_eq_true_eq,
    List.all_eq_true, Option.some.injEq]
  constructor
  · rintro ⟨⟨hds, hn⟩, rfl⟩
    exact ⟨hds, rfl, hn⟩
  · rintro ⟨hds, rfl, hn⟩
    exact ⟨⟨hds, hn⟩, rfl⟩

theorem ofChars_of_isName (hname : IsName name n) (hn : n < Nat.pow 2 64) (rank : Nat) :
    ofChars (name.toList ++ marks rank) = .ok ⟨name, n, rank⟩ := by
  obtain ⟨base, suffix, hb, hs, he⟩ := hname
  have hempty : base.isEmpty = false := List.isEmpty_eq_false_iff.mpr hb.1
  have hmarkers : markers? (marks rank) = some rank := markers?_eq_some.mpr rfl
  have hstop : (suffix ++ marks rank).takeWhile isBaseChar = [] ∧
      (suffix ++ marks rank).dropWhile isBaseChar = suffix ++ marks rank := by
    cases hs with
    | none => exact ⟨takeWhile_marks rfl rank, dropWhile_marks rfl rank⟩
    | digits => exact ⟨rfl, rfl⟩
  have htake : (name.toList ++ marks rank).takeWhile isBaseChar = base := by
    rw [he, List.append_assoc, List.takeWhile_append_of_pos hb.2, hstop.1, List.append_nil]
  have hdrop : (name.toList ++ marks rank).dropWhile isBaseChar = suffix ++ marks rank := by
    rw [he, List.append_assoc, List.dropWhile_append_of_pos hb.2, hstop.2]
  have hread : String.ofList (base ++ suffix) = name := by rw [← he, String.ofList_toList]
  cases hs with
  | none =>
    rw [List.append_nil] at hread
    rw [List.nil_append] at hdrop
    simp only [ofChars, htake, hdrop, cutSuffix_marks, hempty, hmarkers, hread]
  | @digits ds hne hds =>
    have harity : arity? ds = some (numeral ds) := arity?_eq_some.mpr ⟨hds, rfl, hn⟩
    simp only [ofChars, htake, hdrop, cutSuffix_digits hne hds, hempty, hmarkers, harity, hread]

theorem isName_of_ofChars (h : ofChars cs = .ok t) :
    IsName t.name t.arity ∧ t.arity < Nat.pow 2 64 ∧ cs = t.name.toList ++ marks t.rank := by
  rw [ofChars] at h
  have hcs : cs.takeWhile isBaseChar ++ cs.dropWhile isBaseChar = cs :=
    List.takeWhile_append_dropWhile
  have hbase : ∀ c ∈ cs.takeWhile isBaseChar, isBaseChar c = true :=
    fun c hc => List.mem_takeWhile_imp hc
  generalize cs.takeWhile isBaseChar = base at h hbase hcs
  rcases hcut : cutSuffix (cs.dropWhile isBaseChar) with ⟨suffix, rest⟩
  simp only [hcut] at h
  split at h
  · next rank hempty hmarkers =>
    have hb : IsBase base := ⟨by simpa using hempty, hbase⟩
    obtain rfl := markers?_eq_some.mp hmarkers
    split at h
    · cases h
      rw [cutSuffix_eq_none hcut] at hcs
      refine ⟨.of_base (by rwa [String.toList_ofList]), Nat.two_pow_pos 64, ?_⟩
      rw [String.toList_ofList, hcs]
    · next digits =>
      split at h
      · next arity harity =>
        obtain ⟨hdigits, rfl, harity⟩ := arity?_eq_some.mp harity
        obtain ⟨hne, hdrop⟩ := cutSuffix_eq_some hcut
        cases h
        refine ⟨⟨base, _, hb, .digits hne hdigits, String.toList_ofList⟩, harity, ?_⟩
        rw [String.toList_ofList, ← hcs, hdrop, List.append_assoc]
        rfl
      · cases h
  · cases h

/-- A token is read from its name with its markers behind it, and from nothing else. -/
theorem parse_eq_ok_iff :
    parse raw = .ok t ↔
      IsName t.name t.arity ∧ t.arity < Nat.pow 2 64 ∧ Text.trimmed raw = marked t.name t.rank := by
  have htext : Text.trim raw.toList = t.name.toList ++ marks t.rank ↔
      Text.trimmed raw = marked t.name t.rank := by
    rw [← toList_marked, Text.trimmed, ← String.toList_inj, String.toList_ofList]
  rw [parse, ← htext]
  constructor
  · exact isName_of_ofChars
  · rintro ⟨hname, hn, hraw⟩
    rw [hraw]
    exact ofChars_of_isName hname hn t.rank

/-! ## Dropping a suffix -/

theorem stripArity_digits {stem ds : List Char} (hne : ds ≠ [])
    (hds : ∀ c ∈ ds, c.isDigit = true) (hname : name.toList = stem ++ arityMark :: ds) :
    (stripArity name).toList = stem := by
  have hrev : ∀ c ∈ ds.reverse, c.isDigit = true := fun c hc => hds c (List.mem_reverse.mp hc)
  have hback : name.toList.reverse = ds.reverse ++ arityMark :: stem.reverse := by
    simp [hname]
  have htake : name.toList.reverse.takeWhile Char.isDigit = ds.reverse := by
    rw [hback, List.takeWhile_append_of_pos hrev,
      List.takeWhile_cons_of_neg (by simp [isDigit_arityMark]), List.append_nil]
  have hdrop : name.toList.reverse.dropWhile Char.isDigit = arityMark :: stem.reverse := by
    rw [hback, List.dropWhile_append_of_pos hrev,
      List.dropWhile_cons_of_neg (by simp [isDigit_arityMark])]
  have hempty : ds.isEmpty = false := List.isEmpty_eq_false_iff.mpr hne
  simp [stripArity, htake, hdrop, hempty]

/-- A name in which no mark has only digits behind it stays as it is. -/
theorem stripArity_eq_self
    (h : ∀ stem ds, (∀ c ∈ ds, c.isDigit = true) → name.toList ≠ stem ++ arityMark :: ds) :
    stripArity name = name := by
  rw [stripArity]
  split
  · next c back _ hdrop =>
    split
    · next hc =>
      refine absurd ?_ (h back.reverse (name.toList.reverse.takeWhile Char.isDigit).reverse ?_)
      · have htake := List.takeWhile_append_dropWhile
          (p := Char.isDigit) (l := name.toList.reverse)
        rw [hdrop, beq_iff_eq.mp hc] at htake
        have hrev := congrArg List.reverse htake
        simpa using hrev.symm
      · intro d hd
        exact List.mem_takeWhile_imp (List.mem_reverse.mp hd)
    · rfl
  · rfl

theorem stripArity_append (hb : IsBase base) (hs : IsSuffix suffix n)
    (hname : name.toList = base ++ suffix) : (stripArity name).toList = base := by
  cases hs with
  | digits hne hds => exact stripArity_digits hne hds hname
  | none =>
    rw [List.append_nil] at hname
    rw [stripArity_eq_self, hname]
    intro stem ds _ he
    rw [hname] at he
    exact hb.not_mem isBaseChar_arityMark (he ▸ by simp)

/-- Dropping the suffix of a name leaves its base. -/
theorem IsName.isBase_stripArity (h : IsName name n) : IsBase (stripArity name).toList := by
  obtain ⟨base, suffix, hb, hs, hname⟩ := h
  rwa [stripArity_append hb hs hname]

end Token
end SchemaGraph
