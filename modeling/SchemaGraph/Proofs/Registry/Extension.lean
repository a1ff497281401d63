import Mathlib.Order.Defs.PartialOrder
import SchemaGraph.Proofs.Table
import SchemaGraph.Registry

/-! # Growing registries

A registry extends another when it holds the entries of the other, unchanged and in order, in
front of its own. Reserving a free key extends a registry, and so does finalizing a key that was
free when the growth began; finalizing a key that was taken replaces its entry where it stands.
Rolling an extension back to a checkpoint restores what was extended. -/

namespace SchemaGraph

namespace Registry

variable {f g h : Registry} {key k : String} {e : Entry} {s : Schema}

/-- The entries of the one stand in front of those of the other. -/
instance : PartialOrder Registry where
  le g h := g.entries <+: h.entries
  le_refl g := List.prefix_refl g.entries
  le_trans _ _ _ hfg hgh := hfg.trans hgh
  le_antisymm _ _ hgh hhg := ext (hgh.eq_of_length (hgh.length_le.antisymm hhg.length_le))

/-! ## Keys -/

theorem mem_keys : key ∈ g.keys ↔ ∃ e, g.get? key = some e :=
  Table.mem_keys_iff_get?.trans Option.isSome_iff_exists

theorem not_mem_keys : key ∉ g.keys ↔ g.get? key = none := by
  rw [mem_keys, ← Option.isSome_iff_exists, Option.not_isSome_iff_eq_none]

theorem contains_iff : g.contains key = true ↔ key ∈ g.keys := Table.mem_keys_iff_get?.symm

theorem keys_put (g : Registry) (key : String) (e : Entry) :
    (g.put key e).keys = if key ∈ g.keys then g.keys else g.keys ++ [key] := Table.keys_put ..

theorem mem_keys_put : k ∈ (g.put key e).keys ↔ k = key ∨ k ∈ g.keys := by
  rw [mem_keys, mem_keys, get?_put]
  split <;> simp [*]

@[simp] theorem get?_finalize (g : Registry) (key : String) (s : Schema) (k : String) :
    (g.finalize key s).get? k = if k = key then some (.ready s) else g.get? k := get?_put ..

theorem mem_keys_finalize : k ∈ (g.finalize key s).keys ↔ k = key ∨ k ∈ g.keys := mem_keys_put

@[simp] theorem get?_empty : empty.get? k = none := rfl

/-! ## Extension -/

theorem entries_put_of_not_mem (hk : key ∉ g.keys) :
    (g.put key e).entries = g.entries ++ [(key, e)] := Table.put_of_not_mem hk

theorem get?_of_le (hgh : g ≤ h) (he : g.get? k = some e) : h.get? k = some e :=
  Table.get?_of_prefix hgh he

theorem keys_of_le (hgh : g ≤ h) (hk : k ∈ g.keys) : k ∈ h.keys := by
  obtain ⟨e, he⟩ := mem_keys.mp hk
  exact mem_keys.mpr ⟨e, get?_of_le hgh he⟩

/-- What stands under a key was there before, or the key is new. -/
theorem get?_or_of_le (hgh : g ≤ h) (he : h.get? k = some e) : g.get? k = some e ∨ k ∉ g.keys := by
  by_cases hk : k ∈ g.keys
  · obtain ⟨f, hf⟩ := mem_keys.mp hk
    rw [get?_of_le hgh hf] at he
    cases he
    exact .inl hf
  · exact .inr hk

theorem le_put (hk : key ∉ g.keys) : g ≤ g.put key e :=
  ⟨[(key, e)], (entries_put_of_not_mem hk).symm⟩

/-- A key that is free in a registry is finalized behind its entries. -/
theorem le_finalize (hk : key ∉ g.keys) (hgh : g ≤ h) : g ≤ h.finalize key s := by
  obtain ⟨added, hadded⟩ := hgh
  refine ⟨Table.put key (.ready s) added, ?_⟩
  change _ = Table.put key _ h.entries
  rw [← hadded, Table.put_append_of_not_mem hk]

/-- A key that is taken is finalized where it stands. -/
theorem finalize_le_finalize (hk : key ∈ g.keys) (hgh : g ≤ h) :
    g.finalize key s ≤ h.finalize key s := by
  obtain ⟨added, hadded⟩ := hgh
  refine ⟨added, ?_⟩
  change Table.put key _ g.entries ++ added = Table.put key _ h.entries
  rw [← hadded, Table.put_append_of_mem hk]

/-- Rolling back restores what was extended. -/
theorem rollback_checkpoint (hgh : g ≤ h) : h.rollback g.checkpoint = g :=
  ext (List.prefix_iff_eq_take.mp hgh).symm

end Registry
end SchemaGraph
