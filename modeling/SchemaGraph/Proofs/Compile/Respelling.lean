import SchemaGraph.Proofs.Compile.Alike
import SchemaGraph.Proofs.Compile.Atomicity

/-! # Spellings of a type

A type is written by its full name, by the end of it or by a keyword. However it is written, in a
reference or in the arguments that are substituted into the properties of another type,
compilation takes the same steps on the same registries. An error alone tells how the reference
was written. -/

namespace SchemaGraph

namespace Compile

variable {c : Catalog} {limit n : Nat} {r r' : Reference} {rs rs' : List Reference} {p p' : Plan}
  {α β : Type}

/-- Both runs leave one registry, with the same result or with the same error but for the reference
as written. -/
inductive Alike {α : Type} : Outcome α → Outcome α → Prop
  | ok (a : α) (g : Registry) : Alike (.ok a, g) (.ok a, g)
  | error {e e' : Error} (h : e.Alike e') (g : Registry) : Alike (.error e, g) (.error e', g)

theorem Alike.andThen {o o' : Outcome α} {f f' : α → Registry → Outcome β} (ho : Alike o o')
    (hf : ∀ a g, Alike (f a g) (f' a g)) : Alike (andThen o f) (andThen o' f') := by
  cases ho with
  | ok a g => exact hf a g
  | error h g => exact .error h g

section

variable {node : Reference → Registry → Outcome Schema}

theorem each_alike (hnode : ∀ {r r'}, c.Alike r r' → ∀ g, Alike (node r g) (node r' g))
    (h : List.Forall₂ c.Alike rs rs') (g : Registry) :
    Alike (each node rs g) (each node rs' g) := by
  induction h generalizing g with
  | nil => exact .ok _ _
  | cons h _ ih =>
    apply (hnode h g).andThen
    intro s g
    exact (ih g).andThen fun _ _ => .ok _ _

theorem ofPlan_alike (hnode : ∀ {r r'}, c.Alike r r' → ∀ g, Alike (node r g) (node r' g))
    (h : p.Alike c p') (g : Registry) : Alike (ofPlan node p g) (ofPlan node p' g) := by
  cases h with
  | inline i => exact .ok _ _
  | layer l h => exact (hnode h g).andThen fun _ _ => .ok _ _
  | component key ps h =>
    -- the key is the same, so it is free for both runs or for none
    rw [ofPlan, ofPlan]
    split
    · exact .ok _ _
    · exact (each_alike hnode h _).andThen fun _ _ => .ok _ _

end

theorem node_alike (h : c.Alike r r') (g : Registry) :
    Alike (node c limit n r g) (node c limit n r' g) := by
  induction n generalizing r r' g with
  | zero => exact .error (.recursionLimit _ _ _) g
  | succ n ih =>
    have hplan := Catalog.plan_agree h
    rw [node_succ, node_succ]
    generalize c.plan r = x at hplan ⊢
    generalize c.plan r' = x' at hplan ⊢
    cases hplan with
    | ok hp => exact ofPlan_alike (fun h g => ih h g) hp g
    | error he => exact .error he.1 g

end Compile

namespace Catalog

open Reference (Rel)

variable {c : Catalog} {r r' : Reference}

theorem compileWithin_alike (h : c.Alike r r') (limit : Nat) (g : Registry) :
    Compile.Alike (c.compileWithin limit r g) (c.compileWithin limit r' g) := by
  have hnode : Compile.Alike (Compile.node c limit limit r g) (Compile.node c limit limit r' g) :=
    Compile.node_alike h g
  rw [compileWithin, compileWithin]
  generalize Compile.node c limit limit r g = o at hnode ⊢
  generalize Compile.node c limit limit r' g = o' at hnode ⊢
  cases hnode with
  | ok s g' => exact .ok s g'
  | error he g' => exact .error he _

/-- The spelling of types makes no difference: it changes neither the identity of a reference nor
what it compiles to nor the registry, and an error by no more than the reference as written. -/
theorem compile_respelled (h : Rel c.SameType r r') (g : Registry) :
    (∃ s, c.identity r = .ok s ∧ c.identity r' = .ok s) ∧
      ((∃ s g', c.compile r g = (.ok s, g') ∧ c.compile r' g = (.ok s, g')) ∨
        ∃ e e', e.Alike e' ∧ c.compile r g = (.error e, g) ∧ c.compile r' g = (.error e', g)) := by
  refine ⟨identity_of_sameType h, ?_⟩
  have halike := compileWithin_alike (alike_of_sameType h) maxNestingDepth g
  generalize ho : c.compileWithin maxNestingDepth r g = o at halike
  generalize ho' : c.compileWithin maxNestingDepth r' g = o' at halike
  cases halike with
  | ok s g' => exact .inl ⟨s, g', ho, ho'⟩
  | error he g' =>
    obtain rfl := compileWithin_error ho
    exact .inr ⟨_, _, he, ho, ho'⟩

/-- A page of items in a namespace, and numbers under a keyword. -/
def shopTypes : Catalog where
  types := [
    ⟨"System.Int32", [], .primitive .int32⟩,
    ⟨"Shop.Page`1", ["T"], .object [{ name := "Items", type := .array (.leaf "T") }]⟩]
  aliases := [("int", "System.Int32")]
  sources := []

/-- Two spellings of one page. -/
theorem compile_respelled_shopTypes :
    let r := Reference.named "Shop.Page`1" [.leaf "int"]
    let r' := Reference.named "Page`1" [.leaf "Int32"]
    let s := Schema.ref "Shop.Page-3C-System.Int32-3E-"
    Rel shopTypes.SameType r r' ∧ ∃ g, shopTypes.compile r .empty = (.ok s, g) ∧
      shopTypes.compile r' .empty = (.ok s, g) := by
  intro r r' s
  have hpage : shopTypes.SameType "Shop.Page`1" "Page`1" :=
    ⟨_, rfl, resolve_eq_ok_of_filter rfl rfl⟩
  have hint : shopTypes.SameType "int" "Int32" := ⟨_, rfl, resolve_eq_ok_of_filter rfl rfl⟩
  have h : Rel shopTypes.SameType r r' :=
    Reference.rel_named_iff.mpr ⟨hpage, .cons (Reference.rel_named_iff.mpr ⟨hint, .nil⟩) .nil⟩
  obtain ⟨g, hcompile⟩ : ∃ g, shopTypes.compile r .empty = (.ok s, g) := ⟨_, rfl⟩
  refine ⟨h, g, hcompile, ?_⟩
  obtain ⟨t, g', hr, hr'⟩ | ⟨e, e', -, hr, -⟩ := (compile_respelled h .empty).2
  · rw [hcompile] at hr
    cases hr
    exact hr'
  · rw [hcompile] at hr
    cases hr

end Catalog
end SchemaGraph
