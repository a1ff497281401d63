import SchemaGraph.Proofs.Compile.Denotation
import SchemaGraph.Proofs.Compile.Depth

/-! # Compiling again

The first compilation of a reference compiles the properties of object types, those of the types in
them and so on. A later one does not come this far. It follows the layers of the reference down to
what is written in place or to a key, and if this key is there it is done. So it needs no keys but
those that its node refers to (`node_of_refs`), whatever stands under them. -/

namespace SchemaGraph

variable {c : Catalog} {limit n : Nat} {r : Reference} {g g' h : Registry} {s : Schema}

/-- A node is compiled again, and nothing is registered, where the keys are that it refers to. -/
theorem Compile.node_of_refs (hn : node c limit n r g = (.ok s, g'))
    (hrefs : ∀ k ∈ s.refs, k ∈ h.keys) : node c limit n r h = (.ok s, h) := by
  induction n generalizing r g s g' with
  | zero => cases hn
  | succ n ih =>
    rw [node_succ]
    cases node_ok hn with
    | inline hp =>
      rw [hp]
      rfl
    | layer hp hinner =>
      rw [Layer.refs_schema] at hrefs
      rw [hp]
      simp only [ofPlan, ih hinner hrefs, andThen_ok]
    | hit hp | fresh hp =>
      -- whether the first compilation found the key or took it, here it is found
      have hkey := hrefs _ (List.mem_singleton_self _)
      rw [hp]
      simp only [ofPlan, if_pos hkey]

/-- Compiling again is free. What compiles on one registry compiles to the same node on every
registry that holds the keys which are then there, in any order and with anything under them, and
leaves this registry as it is. -/
theorem Catalog.compile_again (hs : c.compile r g = (.ok s, g'))
    (hkeys : ∀ k ∈ g'.keys, k ∈ h.keys) : c.compile r h = (.ok s, h) := by
  have hrefs : ∀ k ∈ s.refs, k ∈ h.keys :=
    fun k hk => hkeys k ((compile_spec_true hs).refs k hk)
  exact compile_eq_ok.mpr (Compile.node_of_refs (compile_eq_ok.mp hs) hrefs)

/-- A registry with the keys of two folder types in the other order, one of them pending, under the
other a schema that is not its own. -/
theorem Catalog.compile_again_listTypes :
    let r := Reference.array (.leaf "Folder")
    let s := Schema.array (.ref "Folder") false
    let g := (listTypes.compile r .empty).2
    let h := (Registry.empty.put "File" .pending).finalize "Folder" (.ref "Note")
    g.keys = ["Folder", "File"] ∧ h.keys = ["File", "Folder"] ∧
      listTypes.compile r .empty = (.ok s, g) ∧ listTypes.compile r h = (.ok s, h) := by
  intro r s g h
  have hs : listTypes.compile r .empty = (.ok s, g) := rfl
  have hkeys : ∀ k ∈ g.keys, k ∈ h.keys := by decide
  exact ⟨rfl, rfl, hs, compile_again hs hkeys⟩

end SchemaGraph
