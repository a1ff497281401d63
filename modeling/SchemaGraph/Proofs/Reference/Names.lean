import Mathlib.Data.List.Forall2
import SchemaGraph.Proofs.Reference.Spelling

/-! # References name by name

A decoded reference is spelled: each of its names tells how many arguments stand under it. Two
references of one shape are compared by the names at equal positions. Both are kept by
substitution. -/

namespace SchemaGraph
namespace Reference

variable {R S : String → String → Prop} {name : String} {r s : Reference}
  {rs ss : List Reference} {b b' : Bindings}

/-- The name stands somewhere in the reference. -/
inductive Occurs (name : String) : Reference → Prop
  | here {arguments : List Reference} : Occurs name (.named name arguments)
  | argument {head : String} {arguments : List Reference} {r : Reference} (hr : r ∈ arguments)
    (h : Occurs name r) : Occurs name (.named head arguments)
  | element {r : Reference} (h : Occurs name r) : Occurs name (.array r)

/-! ## Spelled references -/

/-- Every name takes as many arguments as stand under it. -/
inductive Spelled : Reference → Prop
  | named {name : String} {arguments : List Reference}
    (hname : Token.IsName name arguments.length) (harguments : ∀ r ∈ arguments, Spelled r) :
    Spelled (.named name arguments)
  | array {element : Reference} (helement : Spelled element) : Spelled (.array element)

theorem Spelled.leaf (h : Token.IsName name 0) : Spelled (.leaf name) := .named h (by simp)

theorem Spelled.arguments (h : Spelled (.named name rs)) : ∀ r ∈ rs, r.Spelled := by
  cases h with
  | named _ h => exact h

theorem Spelled.element (h : Spelled (.array r)) : r.Spelled := by
  cases h with
  | array h => exact h

theorem WellFormed.spelled (h : r.WellFormed) : r.Spelled := by
  induction r with
  | named name arguments ih =>
    obtain ⟨hname, -, harguments⟩ := wellFormed_named.mp h
    exact .named hname fun r hr => ih r hr (harguments r hr)
  | array element ih =>
    cases h with
    | array helement => exact .array (ih helement)

theorem spelled_of_decode {tokens : List String} (h : decode tokens = .ok (some r)) :
    r.Spelled := (wellFormed_of_decode h).spelled

/-! ## References of one shape -/

/-- Two references of one shape whose names at equal positions are related. -/
inductive Rel (R : String → String → Prop) : Reference → Reference → Prop
  | named {n m : String} {rs ss : List Reference} (hn : R n m) (hl : rs.length = ss.length)
    (h : ∀ {r s}, (r, s) ∈ rs.zip ss → Rel R r s) : Rel R (.named n rs) (.named m ss)
  | array {r s : Reference} (h : Rel R r s) : Rel R (.array r) (.array s)

theorem rel_named_iff {n m : String} :
    Rel R (.named n rs) (.named m ss) ↔ R n m ∧ List.Forall₂ (Rel R) rs ss := by
  rw [List.forall₂_iff_zip]
  constructor
  · rintro (⟨hn, hl, h⟩ | _)
    exact ⟨hn, hl, h⟩
  · rintro ⟨hn, hl, h⟩
    exact .named hn hl h

theorem Rel.mono (h : Rel R r s) (hRS : ∀ n m, R n m → S n m) : Rel S r s := by
  induction h with
  | named hn hl _ ih => exact .named (hRS _ _ hn) hl ih
  | array _ ih => exact .array ih

theorem Rel.refl (hR : ∀ n, R n n) (r : Reference) : Rel R r r := by
  induction r with
  | named name arguments ih =>
    exact rel_named_iff.mpr ⟨hR name, List.forall₂_same.mpr ih⟩
  | array element ih => exact .array ih

/-! ## Substitution -/

theorem substitute_leaf (b : Bindings) (name : String) :
    (leaf name).substitute b = (b name).getD (leaf name) := rfl

theorem substitute_named (b : Bindings) (name : String) (h : rs ≠ []) :
    (named name rs).substitute b = .named name (rs.map (substitute b)) := by
  cases rs with
  | nil => exact absurd rfl h
  | cons r rs => rw [substitute, substituteAll_eq_map, List.map_cons]

/-- What holds of all arguments holds of what parameters are bound to. -/
theorem Bindings.ofLists_mem {parameters : List String} (h : ofLists parameters rs name = some r) :
    r ∈ rs := by
  induction parameters generalizing rs with
  | nil => cases h
  | cons parameter parameters ih =>
    cases rs with
    | nil => cases h
    | cons argument rs =>
      rw [ofLists, Option.or_eq_some_iff] at h
      rcases h with h | ⟨-, h⟩
      · exact List.mem_cons_of_mem _ (ih h)
      · split at h
        · cases h; exact List.mem_cons_self
        · cases h

theorem Bindings.ofLists_rel {parameters : List String} (h : List.Forall₂ (Rel R) rs ss)
    (name : String) :
    Option.Rel (Rel R) (ofLists parameters rs name) (ofLists parameters ss name) := by
  induction parameters generalizing rs ss with
  | nil => exact .none
  | cons parameter parameters ih =>
    cases h with
    | nil => exact .none
    | cons h hs =>
      have hlater := ih hs
      simp only [ofLists]
      generalize ofLists parameters _ name = x at hlater ⊢
      generalize ofLists parameters _ name = y at hlater ⊢
      cases hlater with
      | some h' => exact .some h'
      | none =>
        simp only [Option.none_or]
        split
        · exact .some h
        · exact .none

theorem Spelled.substitute (hr : r.Spelled) (hb : ∀ {name s}, b name = some s → s.Spelled) :
    (r.substitute b).Spelled := by
  induction hr with
  | @named name arguments hname harguments ih =>
    by_cases h : arguments = []
    · subst h
      rw [substitute_leaf]
      cases hs : b name with
      | none => exact .leaf hname
      | some s => exact hb hs
    · rw [substitute_named b name h]
      refine .named (by rwa [List.length_map]) fun r hr => ?_
      obtain ⟨q, hq, rfl⟩ := List.mem_map.mp hr
      exact ih q hq
  | array _ ih => exact .array ih

/-- Related bindings in the same reference give related references. -/
theorem Rel.substitute (hR : ∀ n, R n n) (hb : ∀ name, Option.Rel (Rel R) (b name) (b' name))
    (r : Reference) : Rel R (r.substitute b) (r.substitute b') := by
  induction r with
  | named name arguments ih =>
    by_cases h : arguments = []
    · subst h
      have hname := hb name
      rw [substitute_leaf, substitute_leaf]
      generalize b name = x at hname ⊢
      generalize b' name = y at hname ⊢
      cases hname with
      | some h => exact h
      | none => exact .refl hR _
    · rw [substitute_named b name h, substitute_named b' name h, rel_named_iff,
        List.forall₂_map_left_iff, List.forall₂_map_right_iff]
      exact ⟨hR name, List.forall₂_same.mpr ih⟩
  | array element ih => exact .array ih

end Reference
end SchemaGraph
