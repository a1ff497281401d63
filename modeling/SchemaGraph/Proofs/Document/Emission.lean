import SchemaGraph.Proofs.Document.Pointers

/-! # Which documents are emitted

A registry has a document if no entry is pending; otherwise the first pending key is reported. The
document tells the schema under each key and nothing of the history of the registry: its components
are sorted, so what a key was first reserved for, overwritten with or rolled back from leaves no
trace. -/

namespace SchemaGraph

/-- The fields of the object at a path, none if there is no object. -/
def Json.fieldsAt (path : List String) (v : Json) : List (String × Json) :=
  match v.at? path with
  | some (.obj fs) => fs
  | _ => []

namespace Registry

variable {g h : Registry} {key : String} {fs : List (String × Json)}

/-! ## Pending keys -/

/-- The entry under the key is pending, and none in front of it is. -/
def FirstPending (g : Registry) (key : String) : Prop :=
  ∃ before after, g.entries = before ++ (key, .pending) :: after ∧
    ∀ e ∈ before, e.2.isPending = false

theorem pendingKeys_of_firstPending (h : g.FirstPending key) :
    ∃ keys, g.pendingKeys = key :: keys := by
  obtain ⟨before, after, hentries, hbefore⟩ := h
  have hnone : before.filter (fun e => e.2.isPending) = [] := by
    rw [List.filter_eq_nil_iff]
    intro e he
    rw [hbefore e he]
    exact Bool.false_ne_true
  refine ⟨(after.filter fun e => e.2.isPending).map Prod.fst, ?_⟩
  rw [pendingKeys, hentries, List.filter_append, hnone]
  rfl

theorem firstPending_of_pendingKeys {keys : List String} (h : g.pendingKeys = key :: keys) :
    g.FirstPending key := by
  rw [pendingKeys, List.map_eq_cons_iff] at h
  obtain ⟨⟨k, e⟩, rest, hfilter, rfl, -⟩ := h
  obtain ⟨before, after, hentries, hbefore, he, -⟩ := List.filter_eq_cons_iff.mp hfilter
  cases e with
  | pending => exact ⟨before, after, hentries, fun e he => Bool.not_eq_true _ ▸ hbefore e he⟩
  | ready s => cases he

theorem exists_firstPending_iff :
    (∃ key, g.FirstPending key) ↔ ∃ key, g.get? key = some .pending := by
  constructor
  · rintro ⟨key, before, after, hentries, -⟩
    refine ⟨key, (Table.get?_eq_some_iff g.nodup).mpr ?_⟩
    rw [hentries]
    exact List.mem_append_right _ List.mem_cons_self
  · intro h
    cases hkeys : g.pendingKeys with
    | nil => exact absurd h (not_exists.mpr (pendingKeys_eq_nil_iff.mp hkeys))
    | cons key keys => exact ⟨key, firstPending_of_pendingKeys hkeys⟩

/-! ## Components -/

/-- The fields are the keys of the registry in ascending order of their bytes, each with its
schema. -/
structure Lists (g : Registry) (fs : List (String × Json)) : Prop where
  ascending : (fs.map Prod.fst).Pairwise fun k l => Text.bytes k < Text.bytes l
  keys : (fs.map Prod.fst).Perm g.keys
  schema : ∀ k v, (k, v) ∈ fs ↔ ∃ s, g.get? k = some (.ready s) ∧ s.toJson = v

/-- Without pending entries the finished schemas are under all the keys. -/
theorem keys_finished_perm (hg : g.pendingKeys = []) : (finished g.entries).keys.Perm g.keys := by
  apply (List.perm_ext_iff_of_nodup (nodup_keys_finished g.nodup) g.nodup).mpr
  intro k
  change _ ↔ k ∈ g.keys
  rw [mem_keys, Table.mem_keys_iff_get?, Option.isSome_iff_exists]
  simp only [get?_finished g.nodup]
  constructor
  · intro ⟨s, hs⟩
    exact ⟨_, hs⟩
  · intro ⟨e, he⟩
    cases e with
    | pending => exact absurd he (pendingKeys_eq_nil_iff.mp hg k)
    | ready s => exact ⟨s, he⟩

theorem lists_finished (hg : g.pendingKeys = []) :
    g.Lists ((finished g.entries).mapValues Schema.toJson).sorted := by
  have hnodup : ((finished g.entries).mapValues Schema.toJson).keys.Nodup := by
    rw [Table.keys_mapValues]
    exact nodup_keys_finished g.nodup
  refine ⟨Table.pairwise_bytes_sorted hnodup, ?_, fun k v => ?_⟩
  · refine (Table.keys_perm (Table.sorted_perm _)).trans ?_
    rw [Table.keys_mapValues]
    exact keys_finished_perm hg
  · rw [Table.mem_sorted, Table.mem_mapValues]
    simp only [mem_finished, get?, Table.get?_eq_some_iff g.nodup]

end Registry

namespace Document

open Registry (FirstPending Lists)

variable {g h : Registry} {key : String}

/-! ## Documents -/

theorem fieldsAt_componentsOf (t : Table Schema) :
    (componentsOf t).fieldsAt ["schemas"] = (t.mapValues Schema.toJson).sorted := by
  cases t with
  | nil => simp [Json.fieldsAt, componentsOf, Json.at?, Table.get?, Table.sorted, Table.mapValues]
  | cons e t => rfl

theorem components_of_firstPending (hg : g.FirstPending key) :
    g.components = .error (.pendingSchema key) := by
  obtain ⟨keys, hkeys⟩ := Registry.pendingKeys_of_firstPending hg
  rw [Registry.components_eq, hkeys]

theorem build_of_components_eq_error {e : Error} (hg : g.components = .error e) (info : Info)
    (references : Table Schema) : build info g references = .error e := by
  rw [build, hg]
  rfl

theorem emit_eq_map (info : Info) (f : Format) (g : Registry) (references : Table Schema) :
    emit info f g references = (build info g references).map (text f) := by
  rw [emit]
  cases build info g references <;> rfl

theorem at?_ofFinished_referencesField (info : Info) (t references : Table Schema) :
    (ofFinished info t references).at? [referencesField] =
      if references.isEmpty then none
      else some (.obj (references.mapValues Schema.toJson)) := by
  cases references with
  | nil => rfl
  | cons e references => rfl

theorem fieldsAt_ofFinished (info : Info) (t references : Table Schema) :
    (ofFinished info t references).fieldsAt ["components", "schemas"] =
      (t.mapValues Schema.toJson).sorted := by
  rw [Json.fieldsAt, at?_ofFinished_components]
  exact fieldsAt_componentsOf t

/-- A registry has components, a document and a text of it if no entry is pending; otherwise all
three fail with the key that is first in order of insertion among the pending ones. Components are
the keys of the registry in ascending order of their bytes, each with its schema, and the named
nodes follow in the order in which they are given, unless there are none. So registries that hold
the same entries under the same keys have one document, whatever was done to them before. -/
theorem emission_canonical :
    (∀ g : Registry, (∃ key, g.FirstPending key) ↔ ∃ key, g.get? key = some .pending) ∧
    (∀ (g : Registry) (key : String), g.FirstPending key →
      g.components = .error (.pendingSchema key) ∧
      ∀ (info : Info) (f : Format) (references : Table Schema),
        build info g references = .error (.pendingSchema key) ∧
        emit info f g references = .error (.pendingSchema key)) ∧
    (∀ g : Registry, (¬ ∃ key, g.get? key = some .pending) →
      ∃ v, g.components = .ok v ∧ g.Lists (v.fieldsAt ["schemas"]) ∧
      ∀ (info : Info) (f : Format) (references : Table Schema), ∃ d,
        build info g references = .ok d ∧ emit info f g references = .ok (text f d) ∧
        g.Lists (d.fieldsAt ["components", "schemas"]) ∧
        d.at? [referencesField] =
          if references.isEmpty then none
          else some (.obj (references.map fun e => (e.1, e.2.toJson)))) ∧
    ∀ g h : Registry, (¬ ∃ key, g.get? key = some .pending) → (∀ k, g.get? k = h.get? k) →
      g.components = h.components ∧
      ∀ (info : Info) (f : Format) (references : Table Schema),
        build info g references = build info h references ∧
        emit info f g references = emit info f h references := by
  refine ⟨fun g => Registry.exists_firstPending_iff, ?_, ?_, ?_⟩
  · intro g key hkey
    have hcomponents := components_of_firstPending hkey
    refine ⟨hcomponents, fun info f references => ?_⟩
    have hbuild := build_of_components_eq_error hcomponents info references
    exact ⟨hbuild, by rw [emit_eq_map, hbuild]; rfl⟩
  · intro g hg
    have hkeys : g.pendingKeys = [] := Registry.pendingKeys_eq_nil_iff.mpr (not_exists.mp hg)
    have hlists := Registry.lists_finished hkeys
    refine ⟨componentsOf (Registry.finished g.entries), ?_, ?_, fun info f references => ?_⟩
    · rw [Registry.components_eq, hkeys]
    · rwa [fieldsAt_componentsOf]
    · have hbuild := build_eq hkeys info references
      refine ⟨_, hbuild, ?_, ?_, ?_⟩
      · rw [emit_eq_map, hbuild]
        rfl
      · rwa [fieldsAt_ofFinished]
      · exact at?_ofFinished_referencesField info _ references
  · intro g h hg hgh
    have hkeys : g.pendingKeys = [] := Registry.pendingKeys_eq_nil_iff.mpr (not_exists.mp hg)
    have hcomponents := Registry.components_congr hkeys hgh
    refine ⟨hcomponents, fun info f references => ?_⟩
    have hbuild : build info g references = build info h references := by
      rw [build, build, hcomponents]
    exact ⟨hbuild, by rw [emit_eq_map, emit_eq_map, hbuild]⟩

/-- A key that is only reserved blocks the document, and one that was reserved first is not told
apart from one that was not. -/
theorem emission_canonical_half :
    let half := (Registry.empty.reserve "Half").2
    let g := (Registry.empty.finalize "A" .opaqueString).finalize "B" .opaqueString
    let h := ((Registry.empty.reserve "B").2.finalize "A" .opaqueString).finalize "B" .opaqueString
    let info : Info := ⟨"T", "1"⟩
    emit info .json half [] = .error (.pendingSchema "Half") ∧
      ∃ d, build info g [] = .ok d ∧ build info h [] = .ok d ∧
        g.Lists (d.fieldsAt ["components", "schemas"]) ∧ d.at? [referencesField] = none := by
  intro half g h info
  obtain ⟨-, hfails, hgives, hsame⟩ := emission_canonical
  have hhalf : half.FirstPending "Half" := ⟨[], [], rfl, by simp⟩
  have hentries : ∀ k, g.get? k = h.get? k := by
    intro k
    have hreserve : (Registry.empty.reserve "B").2 = Registry.empty.put "B" .pending := rfl
    by_cases hk : k = "B" <;> simp [g, h, hreserve, hk]
  have hg : ¬ ∃ key, g.get? key = some .pending := by
    intro ⟨key, hkey⟩
    by_cases hb : key = "B" <;> by_cases ha : key = "A" <;> simp [g, hb, ha] at hkey
  obtain ⟨-, -, -, hgives⟩ := hgives g hg
  obtain ⟨d, hd, -, hlists, hreferences⟩ := hgives info .json []
  have hh : build info h [] = .ok d := ((hsame g h hg hentries).2 info .json []).1 ▸ hd
  exact ⟨((hfails half "Half" hhalf).2 info .json []).2, d, hd, hh, hlists, hreferences⟩

end Document
end SchemaGraph
