import SchemaGraph.Proofs.Compile.Plan
import SchemaGraph.SharedRegistry

/-! # Compilation is atomic

Whatever becomes of a node, the registry has only grown: no entry that was there before is
touched, at any depth (`node_le`). A failed call therefore takes back all it did, and a successful
one leaves the registry that it was given in front of the entries it added. -/

namespace SchemaGraph

namespace Compile

variable {c : Catalog} {limit n : Nat} {r : Reference} {g : Registry} {α β : Type}

theorem le_andThen {o : Outcome α} {f : α → Registry → Outcome β} (ho : g ≤ o.2)
    (hf : ∀ a, o.1 = .ok a → g ≤ (f a o.2).2) : g ≤ (andThen o f).2 := by
  obtain ⟨e | a, h⟩ := o
  · exact ho
  · exact hf a rfl

theorem le_each {node : Reference → Registry → Outcome Schema}
    (hnode : ∀ r g, g ≤ (node r g).2) (rs : List Reference) (g : Registry) :
    g ≤ (each node rs g).2 := by
  induction rs generalizing g with
  | nil => exact le_refl g
  | cons r rs ih =>
    refine le_andThen (hnode r g) fun s _ => ?_
    have hrs : g ≤ (each node rs (node r g).2).2 := (hnode r g).trans (ih _)
    exact le_andThen hrs fun _ _ => hrs

theorem le_ofPlan {node : Reference → Registry → Outcome Schema}
    (hnode : ∀ r g, g ≤ (node r g).2) (p : Plan) (g : Registry) : g ≤ (ofPlan node p g).2 := by
  cases p with
  | inline i => exact le_refl g
  | layer l inner => exact le_andThen (hnode inner g) fun _ _ => hnode inner g
  | component key ps rs =>
    rw [ofPlan]
    split
    · exact le_refl g
    · next hk =>
      -- the component is pending while its properties are compiled
      have hrs : g ≤ (each node rs (g.put key .pending)).2 :=
        (Registry.le_put hk).trans (le_each hnode rs _)
      exact le_andThen hrs fun _ _ => Registry.le_finalize hk hrs

/-- Compiling a node adds entries and touches none. -/
theorem node_le (c : Catalog) (limit n : Nat) (r : Reference) (g : Registry) :
    g ≤ (node c limit n r g).2 := by
  induction n generalizing r g with
  | zero => exact le_refl g
  | succ n ih =>
    rw [node_succ]
    split
    · exact le_refl g
    · exact le_ofPlan ih _ g

end Compile

namespace Catalog

variable {c : Catalog} {limit : Nat} {r : Reference} {tokens : List String} {g g' : Registry}
  {s : Schema} {e : Error}

theorem compileWithin_fst (c : Catalog) (limit : Nat) (r : Reference) (g : Registry) :
    (c.compileWithin limit r g).1 = (Compile.node c limit limit r g).1 := by
  rw [compileWithin]
  split
  · next h => rw [h]
  · next h => rw [h]

theorem compileWithin_eq_ok :
    c.compileWithin limit r g = (.ok s, g') ↔ Compile.node c limit limit r g = (.ok s, g') := by
  rw [compileWithin]
  split
  · next h => rw [h]
  · next h => simp [h]

theorem compileWithin_error (h : c.compileWithin limit r g = (.error e, g')) : g' = g := by
  have hle := Compile.node_le c limit limit r g
  rw [compileWithin] at h
  split at h
  · cases h
  · next hn =>
    rw [hn] at hle
    cases h
    exact Registry.rollback_checkpoint hle

theorem compile_eq_ok :
    c.compile r g = (.ok s, g') ↔
      Compile.node c maxNestingDepth maxNestingDepth r g = (.ok s, g') := compileWithin_eq_ok

theorem compile_error (h : c.compile r g = (.error e, g')) : g' = g := compileWithin_error h

theorem compile_le (h : c.compile r g = (.ok s, g')) : g ≤ g' := by
  have hle := Compile.node_le c maxNestingDepth maxNestingDepth r g
  rwa [compile_eq_ok.mp h] at hle

theorem compileTokens_eq_ok {x : Option Schema} :
    c.compileTokens tokens g = (.ok x, g') ↔
      (Reference.decode tokens = .ok none ∧ x = none ∧ g' = g) ∨
      ∃ r s, Reference.decode tokens = .ok (some r) ∧ c.compile r g = (.ok s, g') ∧
        x = some s := by
  rw [compileTokens]
  split
  · next h => simp [h]
  · next h => simp [h, eq_comm]
  · next r h =>
    rcases hc : c.compile r g with ⟨e | s, g₁⟩ <;> simp [h, hc, and_comm, eq_comm]

theorem compileTokens_error (h : c.compileTokens tokens g = (.error e, g')) : g' = g := by
  rw [compileTokens] at h
  split at h
  · cases h; rfl
  · cases h
  · split at h
    · cases h
    · next hc => cases h; exact compile_error hc

end Catalog

/-! ## Atomicity -/

namespace Registry

/-- A failed call leaves the registry as it was. A successful one leaves the entries that were
there, unchanged and in order, in front of those it added. -/
def Atomic {ε α : Type} (before : Registry) : Except ε α → Registry → Prop
  | .ok _, after => before.entries <+: after.entries
  | .error _, after => after = before

end Registry

namespace Catalog

theorem atomic_compile (c : Catalog) (r : Reference) (g : Registry) :
    g.Atomic (c.compile r g).1 (c.compile r g).2 := by
  rcases h : c.compile r g with ⟨e | s, g'⟩
  · exact compile_error h
  · exact compile_le h

theorem atomic_compileTokens (c : Catalog) (tokens : List String) (g : Registry) :
    g.Atomic (c.compileTokens tokens g).1 (c.compileTokens tokens g).2 := by
  rcases h : c.compileTokens tokens g with ⟨e | x, g'⟩
  · exact compileTokens_error h
  · rcases compileTokens_eq_ok.mp h with ⟨-, -, rfl⟩ | ⟨r, s, -, hc, -⟩
    · exact List.prefix_refl _
    · exact compile_le hc

end Catalog

theorem SharedRegistry.atomic_compile (s : SharedRegistry) (c : Catalog) (r : Reference) :
    s.registry.Atomic (s.compile c r).1 (s.compile c r).2.registry := by
  have h := Catalog.atomic_compile c r s.registry
  rw [compile]
  split
  · rfl
  · split
    · next hc => rwa [hc] at h
    · next hc => rwa [hc] at h

/-- Every way to compile is atomic, from every registry. -/
theorem Catalog.calls_atomic (c : Catalog) (g : Registry) :
    (∀ r, g.Atomic (c.compile r g).1 (c.compile r g).2) ∧
    (∀ tokens, g.Atomic (c.compileTokens tokens g).1 (c.compileTokens tokens g).2) ∧
    ∀ r poisoned, let s : SharedRegistry := ⟨g, poisoned⟩
      g.Atomic (s.compile c r).1 (s.compile c r).2.registry :=
  ⟨fun r => c.atomic_compile r g, fun tokens => c.atomic_compileTokens tokens g,
    fun r poisoned => SharedRegistry.atomic_compile ⟨g, poisoned⟩ c r⟩

end SchemaGraph
