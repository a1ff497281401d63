import SchemaGraph.Proofs.Compile.Atomicity

/-! # The depth bound

Depth is spent along the references from a type to the types in it. Where it is exhausted the
compilation fails, and this is all that the bound decides: with more depth a compilation that did
not exhaust it takes the same steps on the same registries, so it ends in the same outcome
(`node_deepens`). -/

namespace SchemaGraph

namespace Compile

variable {c : Catalog} {limit limit' n m : Nat} {α β : Type}

/-- The compilation came to a reference that is nested too deep. -/
def TooDeep (o : Outcome α) : Prop :=
  ∃ written limit, o.1 = .error (.recursionLimit written limit)

theorem not_tooDeep_ok (a : α) (g : Registry) : ¬ TooDeep ((.ok a, g) : Outcome α) := by
  intro ⟨_, _, h⟩
  cases h

theorem TooDeep.andThen {o : Outcome α} (h : TooDeep o) (f : α → Registry → Outcome β) :
    TooDeep (andThen o f) := by
  obtain ⟨written, limit, h⟩ := h
  obtain ⟨x, g⟩ := o
  cases h
  exact ⟨written, limit, rfl⟩

/-- The second outcome is the first, unless the first came of too little depth. -/
def Deepens (o o' : Outcome α) : Prop := TooDeep o ∨ o' = o

theorem Deepens.refl (o : Outcome α) : Deepens o o := .inr rfl

theorem Deepens.andThen {o o' : Outcome α} {f f' : α → Registry → Outcome β} (ho : Deepens o o')
    (hf : ∀ a g, Deepens (f a g) (f' a g)) : Deepens (andThen o f) (andThen o' f') := by
  rcases ho with h | rfl
  · exact .inl (h.andThen f)
  · obtain ⟨e | a, g⟩ := o'
    · exact .refl _
    · exact hf a g

section

variable {node node' : Reference → Registry → Outcome Schema}

theorem each_deepens (hnode : ∀ r g, Deepens (node r g) (node' r g)) (rs : List Reference)
    (g : Registry) : Deepens (each node rs g) (each node' rs g) := by
  induction rs generalizing g with
  | nil => exact .refl _
  | cons r rs ih =>
    apply (hnode r g).andThen
    intro s g
    exact (ih g).andThen fun _ _ => .refl _

theorem ofPlan_deepens (hnode : ∀ r g, Deepens (node r g) (node' r g)) (p : Plan)
    (g : Registry) : Deepens (ofPlan node p g) (ofPlan node' p g) := by
  cases p with
  | inline i => exact .refl _
  | layer l inner => exact (hnode inner g).andThen fun _ _ => .refl _
  | component key ps rs =>
    simp only [ofPlan]
    split
    · exact .refl _
    · exact (each_deepens hnode rs _).andThen fun _ _ => .refl _

end

/-- With more depth a node is what it was, unless the depth was exhausted. -/
theorem node_deepens (h : n ≤ m) (r : Reference) (g : Registry) :
    Deepens (node c limit n r g) (node c limit' m r g) := by
  induction n generalizing m r g with
  | zero => exact .inl ⟨_, _, rfl⟩
  | succ n ih =>
    obtain ⟨m, rfl⟩ := Nat.exists_eq_add_of_le' (Nat.zero_lt_of_lt h)
    rw [node_succ, node_succ]
    split
    · exact .refl _
    · exact ofPlan_deepens (fun r g => ih (Nat.le_of_succ_le_succ h) r g) _ g

end Compile

namespace Catalog

open Compile (TooDeep Deepens)

variable {c : Catalog} {b b' : Nat} {r : Reference} {g g' : Registry} {x : Except Error Schema}

theorem tooDeep_compileWithin :
    TooDeep (c.compileWithin b r g) ↔ TooDeep (Compile.node c b b r g) := by
  rw [TooDeep, compileWithin_fst, TooDeep]

theorem compileWithin_deepens (c : Catalog) (hb : b ≤ b') (r : Reference) (g : Registry) :
    Deepens (c.compileWithin b r g) (c.compileWithin b' r g) := by
  have hnode : Deepens (Compile.node c b b r g) (Compile.node c b' b' r g) :=
    Compile.node_deepens hb r g
  rcases hnode with h | h
  · exact .inl (tooDeep_compileWithin.mpr h)
  · right
    rw [compileWithin, compileWithin, h]

/-- The bound rejects and does nothing else: a compilation that ends otherwise than for lack of
depth, be it in a node or in an error, ends so under every larger bound, and leaves the same
registry. -/
theorem compileWithin_eq_of_le (hb : b ≤ b') (h : c.compileWithin b r g = (x, g'))
    (hx : ∀ written limit, x ≠ .error (.recursionLimit written limit)) :
    c.compileWithin b' r g = (x, g') := by
  rcases c.compileWithin_deepens hb r g with hdeep | hsame
  · obtain ⟨written, limit, hdeep⟩ := hdeep
    rw [h] at hdeep
    exact absurd hdeep (hx written limit)
  · rw [hsame, h]

/-- Two object types that hold lists of each other. -/
def listTypes : Catalog where
  types := [
    ⟨"Folder", [], .object [{ name := "Files", type := .array (.leaf "File") }]⟩,
    ⟨"File", [], .object [{ name := "Links", type := .array (.leaf "Folder") }]⟩]
  aliases := []
  sources := []

/-- The least bound that lets the first of them pass, and the standing one. -/
theorem compileWithin_eq_of_le_listTypes :
    let r := Reference.leaf "Folder"
    let g := (listTypes.compileWithin 5 r .empty).2
    TooDeep (listTypes.compileWithin 4 r .empty) ∧
      listTypes.compileWithin 5 r .empty = (.ok (.ref "Folder"), g) ∧
      listTypes.compileWithin maxNestingDepth r .empty = (.ok (.ref "Folder"), g) := by
  intro r g
  have h : listTypes.compileWithin 5 r .empty = (.ok (.ref "Folder"), g) := rfl
  have hb : 5 ≤ maxNestingDepth := by decide
  exact ⟨⟨_, _, rfl⟩, h, compileWithin_eq_of_le hb h (by simp)⟩

end Catalog
end SchemaGraph
