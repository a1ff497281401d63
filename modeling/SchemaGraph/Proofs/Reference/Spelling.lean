import SchemaGraph.Proofs.Token
import SchemaGraph.Reference.Decode

/-! # Token lists spell references

A reference is well formed when every name in it declares as many arguments as stand under it and
every array is one of a bare name, at any rank. The token lists that are decoded are the spellings
of well-formed references, blank ends of tokens apart: what is read off the front of a list is
spelled there, and what is spelled at the front of a list is read. -/

namespace SchemaGraph
namespace Reference

@[induction_eliminator]
theorem induct {motive : Reference → Prop}
    (named : ∀ name arguments, (∀ r ∈ arguments, motive r) → motive (.named name arguments))
    (array : ∀ element, motive element → motive (.array element)) (r : Reference) : motive r :=
  @Reference.rec motive (fun rs => ∀ r ∈ rs, motive r) named array (by simp)
    (fun _ _ h hs => List.forall_mem_cons.mpr ⟨h, hs⟩) r

variable {name text : String} {rank n size : Nat} {r : Reference} {rs : List Reference}
  {tokens unread rest : List String}

/-- Every name has no blank characters, reads as a token without array markers and declares as many
arguments as stand under it; every array is one of an array or of a name without arguments. -/
inductive WellFormed : Reference → Prop
  | named {name : String} {arguments : List Reference}
    (hblank : ∀ c ∈ name.toList, Text.isBlank c = false)
    (hname : ∃ t, Token.parse name = .ok t ∧ t.isArray = false ∧ t.arity = arguments.length)
    (harguments : ∀ r ∈ arguments, WellFormed r) : WellFormed (.named name arguments)
  | array {element : Reference} (helement : WellFormed element)
    (hshape : element.isArray = true ∨ element.arguments = []) : WellFormed (.array element)

/-! ## Arrays of names -/

theorem arrayText_arrays_leaf (name : String) (rank : Nat) :
    arrayText ((leaf name).arrays rank) = Token.marked name rank := by
  induction rank with
  | zero => rfl
  | succ rank ih => rw [arrays, arrayText, ih, Token.marked]

/-- An array of a name is spelled by one token. -/
theorem tokens_arrays_leaf (name : String) (rank : Nat) :
    ((leaf name).arrays rank).tokens = [Token.marked name rank] := by
  cases rank with
  | zero => rfl
  | succ rank => rw [arrays, Reference.tokens, arrayText_arrays_leaf, Token.marked]

theorem tokens_ne_nil (r : Reference) : r.tokens ≠ [] := by
  cases r <;> simp [Reference.tokens]

theorem wellFormed_named :
    (named name rs).WellFormed ↔
      Token.IsName name rs.length ∧ rs.length < Nat.pow 2 64 ∧ ∀ r ∈ rs, r.WellFormed := by
  constructor
  · rintro (@⟨_, _, hblank, ⟨t, ht, harray, harity⟩, hrs⟩ | _)
    obtain ⟨hname, hn, htrim⟩ := Token.parse_eq_ok_iff.mp ht
    have hrank : t.rank = 0 := by simpa [Token.isArray] using harray
    rw [Token.trimmed_eq_self hblank, hrank, Token.marked] at htrim
    rw [← htrim, harity] at hname
    exact ⟨hname, harity ▸ hn, hrs⟩
  · rintro ⟨hname, hn, hrs⟩
    have ht : Token.parse name = .ok ⟨name, rs.length, 0⟩ :=
      Token.parse_eq_ok_iff.mpr ⟨hname, hn, hname.trimmed⟩
    exact .named hname.not_blank ⟨_, ht, rfl, rfl⟩ hrs

theorem wellFormed_arrays_leaf : ((leaf name).arrays rank).WellFormed ↔ Token.IsName name 0 := by
  induction rank with
  | zero =>
    rw [arrays, wellFormed_named]
    exact ⟨And.left, fun h => ⟨h, Nat.two_pow_pos 64, by simp⟩⟩
  | succ rank ih =>
    rw [arrays, ← ih]
    constructor
    · rintro (_ | ⟨h, -⟩)
      exact h
    · refine fun h => .array h ?_
      cases rank with
      | zero => exact .inr rfl
      | succ rank => exact .inl rfl

/-- The element of a well-formed array is a name at the bottom of arrays. -/
theorem WellFormed.exists_arrays_leaf (h : r.WellFormed)
    (hshape : r.isArray = true ∨ r.arguments = []) :
    ∃ name rank, Token.IsName name 0 ∧ r = (leaf name).arrays rank := by
  induction r with
  | named name rs _ =>
    obtain rfl : rs = [] := hshape.resolve_left Bool.false_ne_true
    exact ⟨name, 0, (wellFormed_named.mp h).1, rfl⟩
  | array element ih =>
    cases h with
    | array helement hshape =>
      obtain ⟨name, rank, hname, rfl⟩ := ih helement hshape
      exact ⟨name, rank + 1, hname, rfl⟩

/-! ## Reading references -/

/-- The first token of a list claims as many of the references behind it as its arity says. -/
theorem readMany_cons_eq_ok :
    readMany size (text :: unread) (n + 1) = (.ok rs, rest) ↔
      ∃ t, Token.parse text = .ok t ∧
        (t.isArray = true ∧ t.isGeneric = false ∧
          (∃ ss, readMany size unread n = (.ok ss, rest) ∧
            rs = (leaf t.name).arrays t.rank :: ss) ∨
        t.isArray = false ∧
          ∃ ss, readMany size unread (t.arity + n) = (.ok ss, rest) ∧
            rs = .named t.name (ss.take t.arity) :: ss.drop t.arity) := by
  rw [readMany]
  rcases Token.parse text with e | t
  · simp
  · cases harray : t.isArray with
    | true =>
      cases hgeneric : t.isGeneric with
      | true => simp [harray, hgeneric]
      | false =>
        rcases hss : readMany size unread n with ⟨e | ss, rest'⟩
        · simp [harray, hgeneric]
        · simp [harray, hgeneric]; grind
    | false =>
      rcases hss : readMany size unread (t.arity + n) with ⟨e | ss, rest'⟩
      · simp [harray, hss]
      · simp [harray, hss]; grind

theorem readMany_zero (size : Nat) (unread : List String) :
    readMany size unread 0 = (.ok [], unread) := by
  cases unread <;> rfl

/-! ## Spellings at the front of a list -/

/-- The list begins with a spelling of the well-formed references and ends with the rest. -/
def SpelledBefore (rest : List String) (rs : List Reference) (unread : List String) : Prop :=
  (∀ r ∈ rs, r.WellFormed) ∧ ∃ read, unread = read ++ rest ∧ read.map Text.trimmed = tokensAll rs

theorem spelledBefore_nil : SpelledBefore rest [] unread ↔ unread = rest := by
  simp [SpelledBefore, tokensAll]

theorem not_spelledBefore_nil : ¬ SpelledBefore rest (r :: rs) [] := by
  rintro ⟨-, read, hunread, hread⟩
  obtain ⟨rfl, rfl⟩ := List.append_eq_nil_iff.mp hunread.symm
  simp [tokensAll, tokens_ne_nil] at hread

/-- A reference whose first token is split off. -/
theorem spelledBefore_cons {ss : List Reference} (htokens : tokensAll rs = name :: tokensAll ss) :
    (∃ read, text :: unread = read ++ rest ∧ read.map Text.trimmed = tokensAll rs) ↔
      Text.trimmed text = name ∧
        ∃ read, unread = read ++ rest ∧ read.map Text.trimmed = tokensAll ss := by
  rw [htokens]
  constructor
  · rintro ⟨read, hunread, hread⟩
    obtain ⟨text', more, rfl, htext, hmore⟩ := List.map_eq_cons_iff.mp hread
    cases hunread
    exact ⟨htext, more, rfl, hmore⟩
  · rintro ⟨htext, read, rfl, hread⟩
    exact ⟨text :: read, rfl, by rw [List.map_cons, htext, hread]⟩

theorem spelledBefore_arrays :
    SpelledBefore rest ((leaf name).arrays rank :: rs) (text :: unread) ↔
      Token.IsName name 0 ∧ Text.trimmed text = Token.marked name rank ∧
        SpelledBefore rest rs unread := by
  have htokens : tokensAll ((leaf name).arrays rank :: rs) =
      Token.marked name rank :: tokensAll rs := by
    rw [tokensAll, tokens_arrays_leaf, List.singleton_append]
  rw [SpelledBefore, spelledBefore_cons htokens, List.forall_mem_cons, wellFormed_arrays_leaf]
  constructor
  · rintro ⟨⟨hname, hwf⟩, htext, hread⟩
    exact ⟨hname, htext, hwf, hread⟩
  · rintro ⟨hname, htext, hwf, hread⟩
    exact ⟨⟨hname, hwf⟩, htext, hread⟩

theorem spelledBefore_named {arguments : List Reference} :
    SpelledBefore rest (.named name arguments :: rs) (text :: unread) ↔
      Token.IsName name arguments.length ∧ arguments.length < Nat.pow 2 64 ∧
        Text.trimmed text = name ∧ SpelledBefore rest (arguments ++ rs) unread := by
  have htokens : tokensAll (.named name arguments :: rs) = name :: tokensAll (arguments ++ rs) := by
    rw [tokensAll, Reference.tokens, List.cons_append, tokensAll_append]
  rw [SpelledBefore, spelledBefore_cons htokens, List.forall_mem_cons, wellFormed_named,
    SpelledBefore, List.forall_mem_append]
  constructor
  · rintro ⟨⟨⟨hname, hn, hwf⟩, hwf'⟩, htext, hread⟩
    exact ⟨hname, hn, htext, ⟨hwf, hwf'⟩, hread⟩
  · rintro ⟨hname, hn, htext, ⟨hwf, hwf'⟩, hread⟩
    exact ⟨⟨⟨hname, hn, hwf⟩, hwf'⟩, htext, hread⟩

/-- What is read off the front of a list is as much as was due, and is spelled there. -/
theorem spelledBefore_of_readMany (h : readMany size unread n = (.ok rs, rest)) :
    rs.length = n ∧ SpelledBefore rest rs unread := by
  induction unread generalizing n rs with
  | nil =>
    cases n with
    | zero => cases h; exact ⟨rfl, spelledBefore_nil.mpr rfl⟩
    | succ n => cases h
  | cons text unread ih =>
    cases n with
    | zero => cases h; exact ⟨rfl, spelledBefore_nil.mpr rfl⟩
    | succ n =>
      obtain ⟨t, ht, ⟨-, hgeneric, ss, hss, rfl⟩ | ⟨harray, ss, hss, rfl⟩⟩ :=
        readMany_cons_eq_ok.mp h
      · obtain ⟨hlength, hspelled⟩ := ih hss
        obtain ⟨hname, -, htext⟩ := Token.parse_eq_ok_iff.mp ht
        have hzero : t.arity = 0 := by simpa [Token.isGeneric] using hgeneric
        rw [hzero] at hname
        exact ⟨congrArg (· + 1) hlength, spelledBefore_arrays.mpr ⟨hname, htext, hspelled⟩⟩
      · obtain ⟨hlength, hspelled⟩ := ih hss
        obtain ⟨hname, hn, htext⟩ := Token.parse_eq_ok_iff.mp ht
        have hrank : t.rank = 0 := by simpa [Token.isArray] using harray
        have htake : (ss.take t.arity).length = t.arity := by
          rw [List.length_take]
          omega
        rw [hrank, Token.marked] at htext
        rw [← List.take_append_drop t.arity ss] at hspelled
        rw [← htake] at hname hn
        refine ⟨?_, spelledBefore_named.mpr ⟨hname, hn, htext, hspelled⟩⟩
        rw [List.length_cons, List.length_drop]
        omega

/-- What is spelled at the front of a list is read off it. -/
theorem readMany_of_spelledBefore (h : SpelledBefore rest rs unread) :
    readMany size unread rs.length = (.ok rs, rest) := by
  induction unread generalizing rs with
  | nil =>
    cases rs with
    | nil => rw [← spelledBefore_nil.mp h]; exact readMany_zero ..
    | cons r rs => exact absurd h not_spelledBefore_nil
  | cons text unread ih =>
    cases rs with
    | nil => rw [← spelledBefore_nil.mp h]; exact readMany_zero ..
    | cons r rs =>
      have hwf := h.1 r List.mem_cons_self
      cases r with
      | named name arguments =>
        obtain ⟨hname, hn, htext, hrest⟩ := spelledBefore_named.mp h
        have ht : Token.parse text = .ok ⟨name, arguments.length, 0⟩ :=
          Token.parse_eq_ok_iff.mpr ⟨hname, hn, htext⟩
        have hread := ih hrest
        rw [List.length_append] at hread
        exact readMany_cons_eq_ok.mpr ⟨_, ht, .inr ⟨rfl, _, hread, by simp⟩⟩
      | array element =>
        obtain ⟨name, rank, hname, he⟩ := hwf.exists_arrays_leaf (.inl rfl)
        rw [he] at h ⊢
        obtain ⟨-, htext, hrest⟩ := spelledBefore_arrays.mp h
        have ht : Token.parse text = .ok ⟨name, 0, rank⟩ :=
          Token.parse_eq_ok_iff.mpr ⟨hname, Nat.two_pow_pos 64, htext⟩
        have hrank : rank ≠ 0 := by
          rintro rfl
          cases he
        exact readMany_cons_eq_ok.mpr
          ⟨_, ht, .inl ⟨by simpa [Token.isArray] using hrank, rfl, _, ih hrest, rfl⟩⟩

/-! ## Decoding -/

theorem spelledBefore_singleton :
    SpelledBefore [] [r] tokens ↔ r.WellFormed ∧ tokens.map Text.trimmed = r.tokens := by
  simp [SpelledBefore, tokensAll]

/-- A list is decoded by reading the one reference that is due. -/
theorem decode_eq_some_iff_readMany :
    decode tokens = .ok (some r) ↔
      tokens ≠ [] ∧ readMany tokens.length tokens 1 = (.ok [r], []) := by
  cases tokens with
  | nil => simp [decode]
  | cons token tokens =>
    simp only [decode, read]
    rcases hmany : readMany (token :: tokens).length (token :: tokens) 1 with ⟨e | rs, rest⟩
    · simp
    · obtain ⟨q, rfl⟩ := List.length_eq_one_iff.mp (spelledBefore_of_readMany hmany).1
      cases rest <;> simp

theorem spelledBefore_of_decode (h : decode tokens = .ok (some r)) :
    SpelledBefore [] [r] tokens :=
  (spelledBefore_of_readMany (decode_eq_some_iff_readMany.mp h).2).2

theorem wellFormed_of_decode (h : decode tokens = .ok (some r)) : r.WellFormed :=
  (spelledBefore_singleton.mp (spelledBefore_of_decode h)).1

theorem map_trimmed_of_decode (h : decode tokens = .ok (some r)) :
    tokens.map Text.trimmed = r.tokens :=
  (spelledBefore_singleton.mp (spelledBefore_of_decode h)).2

theorem decode_of_map_trimmed (hr : r.WellFormed) (h : tokens.map Text.trimmed = r.tokens) :
    decode tokens = .ok (some r) := by
  have hspelled : SpelledBefore [] [r] tokens := spelledBefore_singleton.mpr ⟨hr, h⟩
  have hne : tokens ≠ [] := by
    rintro rfl
    exact not_spelledBefore_nil hspelled
  exact decode_eq_some_iff_readMany.mpr ⟨hne, readMany_of_spelledBefore hspelled⟩

/-- Only an empty list spells nothing. -/
theorem decode_eq_none : decode tokens = .ok none ↔ tokens = [] := by
  cases tokens with
  | nil => simp [decode]
  | cons token tokens =>
    simp only [decode, reduceCtorEq, iff_false]
    split <;> simp

/-- The token lists that are decoded to a reference are its spellings, each token with any blank
ends, and just the well-formed references have them. -/
theorem decode_eq_some_iff_spelling :
    decode tokens = .ok (some r) ↔ r.WellFormed ∧ tokens.map Text.trimmed = r.tokens := by
  constructor
  · intro h
    exact ⟨wellFormed_of_decode h, map_trimmed_of_decode h⟩
  · intro ⟨hr, htokens⟩
    exact decode_of_map_trimmed hr htokens

example :
    decode ["Pair`2", " User[][]\n", "List`1", "Int32"] = .ok (some (.named "Pair`2"
      [.array (.array (.leaf "User")), .named "List`1" [.leaf "Int32"]])) := by
  rfl

end Reference
end SchemaGraph
