import SchemaGraph.Document
import SchemaGraph.Proofs.Registry.Extension

/-! # The components of a document

A registry without pending entries has components: its schemas in ascending order of their keys.
They depend on what stands under each key, not on the order in which it came there. -/

namespace SchemaGraph

/-- The JSON type of components under their keys. -/
def componentsOf (t : Table Schema) : Json :=
  if t.isEmpty then .obj []
  else .obj [("schemas", .obj (t.mapValues Schema.toJson).sorted)]

theorem componentsOf_eq_of_perm {t u : Table Schema} (hp : t.Perm u) (hd : t.keys.Nodup) :
    componentsOf t = componentsOf u := by
  have hs : (t.mapValues Schema.toJson).sorted = (u.mapValues Schema.toJson).sorted :=
    Table.sorted_eq_of_perm (hp.map _) (by rwa [Table.keys_mapValues])
  rw [componentsOf, componentsOf, hs, hp.isEmpty_eq]

namespace Registry

variable {g h : Registry} {k : String} {s : Schema}

theorem pendingKeys_eq_nil_iff : g.pendingKeys = [] ↔ ∀ k, g.get? k ≠ some .pending := by
  rw [pendingKeys, List.map_eq_nil_iff, List.filter_eq_nil_iff]
  constructor
  · intro h k hk
    exact h _ (Table.mem_of_get? hk) rfl
  · rintro h ⟨k, _ | s⟩ he
    · exact absurd ((Table.get?_eq_some_iff g.nodup).mpr he) (h k)
    · exact Bool.false_ne_true

/-- The finished schemas under their keys. -/
def finished (t : Table Entry) : Table Schema :=
  t.filterMap fun e => e.2.schema?.map fun s => (e.1, s)

/-- A finished entry as a component. -/
def entryJson : String × Entry → Except Error (String × Json)
  | (key, .ready s) => .ok (key, s.toJson)
  | (key, .pending) => .error (.pendingSchema key)

/-- Entries are written one after another, up to the first that is pending. -/
theorem mapM_entryJson (t : Table Entry) :
    t.mapM entryJson =
      match (t.filter fun e => e.2.isPending).map Prod.fst with
      | [] => .ok ((finished t).mapValues Schema.toJson)
      | key :: _ => .error (.pendingSchema key) := by
  induction t with
  | nil => rfl
  | cons e t ih =>
    obtain ⟨key, _ | s⟩ := e
    · rfl
    · have hf : ((key, Entry.ready s) :: t).filter (fun e => e.2.isPending) =
          t.filter fun e => e.2.isPending := rfl
      rw [List.mapM_cons, ih, hf]
      cases (t.filter fun e => e.2.isPending).map Prod.fst <;> rfl

theorem components_eq (g : Registry) :
    g.components =
      match g.pendingKeys with
      | [] => .ok (componentsOf (finished g.entries))
      | key :: _ => .error (.pendingSchema key) := by
  have h : g.components = g.entries.mapM entryJson >>= fun schemas =>
      if schemas.isEmpty then .ok (.obj [])
      else .ok (.obj [("schemas", .obj (Table.sorted schemas))]) := by
    rw [components]
    congr 2
    funext ⟨key, e⟩
    cases e <;> rfl
  rw [h, mapM_entryJson, pendingKeys]
  cases (g.entries.filter fun e => e.2.isPending).map Prod.fst with
  | cons key keys => rfl
  | nil =>
    simp only [bind, Except.bind, componentsOf, Table.mapValues, List.isEmpty_map]
    cases (finished g.entries).isEmpty <;> rfl

/-! ## Look-ups -/

theorem mem_finished {t : Table Entry} : (k, s) ∈ finished t ↔ (k, .ready s) ∈ t := by
  simp only [finished, List.mem_filterMap, Option.map_eq_some_iff, Prod.mk.injEq]
  constructor
  · rintro ⟨⟨key, _ | s'⟩, he, s'', hs, rfl, rfl⟩ <;> cases hs
    exact he
  · exact fun h => ⟨_, h, s, rfl, rfl, rfl⟩

theorem nodup_keys_finished {t : Table Entry} (hd : t.keys.Nodup) : (finished t).keys.Nodup := by
  have h : (finished t).keys.Sublist t.keys := by
    induction t with
    | nil => exact .slnil
    | cons e t ih =>
      rw [Table.keys_cons, List.nodup_cons] at hd
      obtain ⟨key, _ | s⟩ := e
      · exact (ih hd.2).cons _
      · exact (ih hd.2).cons_cons _
  exact h.nodup hd

theorem get?_finished {t : Table Entry} (hd : t.keys.Nodup) :
    (finished t).get? k = some s ↔ t.get? k = some (.ready s) := by
  rw [Table.get?_eq_some_iff (nodup_keys_finished hd), Table.get?_eq_some_iff hd, mem_finished]

/-- Registries with the same entries under the same keys, none of them pending, have the same
components. -/
theorem components_congr (hg : g.pendingKeys = []) (hgh : ∀ k, g.get? k = h.get? k) :
    g.components = h.components := by
  have hp : g.entries.Perm h.entries := Table.perm_of_get?_eq g.nodup h.nodup hgh
  have hh : h.pendingKeys = [] := by
    have hq : g.pendingKeys.Perm h.pendingKeys := (hp.filter _).map _
    rw [hg] at hq
    exact hq.nil_eq.symm
  have hf : (finished g.entries).Perm (finished h.entries) := hp.filterMap _
  rw [components_eq, components_eq, hg, hh]
  simp only [componentsOf_eq_of_perm hf (nodup_keys_finished g.nodup)]

end Registry
end SchemaGraph
