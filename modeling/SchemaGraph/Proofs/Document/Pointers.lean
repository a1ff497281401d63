import SchemaGraph.Proofs.Document.Components

/-! # References in a document

The references of a JSON value are the texts of its `$ref` fields. Those of a schema's JSON form
are the pointers to the components that the schema refers to, so a document dangles nowhere when
its registry holds what its schemas and its named nodes refer to. -/

namespace SchemaGraph

namespace Json

/-- The text of a field that refers to something. -/
def target : String → Json → List String
  | "$ref", .str s => [s]
  | _, _ => []

mutual

/-- The texts of the `$ref` fields, at any depth. -/
def refs : Json → List String
  | .arr vs => refsItems vs
  | .obj fs => refsFields fs
  | _ => []

def refsItems : List Json → List String
  | [] => []
  | v :: vs => refs v ++ refsItems vs

def refsFields : List (String × Json) → List String
  | [] => []
  | (name, v) :: fs => target name v ++ refs v ++ refsFields fs

end

/-- The value at a path of field names. -/
def at? : List String → Json → Option Json
  | [], v => some v
  | name :: path, .obj fs => (Table.get? name fs).bind (at? path)
  | _ :: _, _ => none

@[simp] theorem refs_str (s : String) : (str s).refs = [] := rfl

@[simp] theorem target_obj (name : String) (fs : List (String × Json)) :
    target name (.obj fs) = [] := by
  unfold target; split <;> simp_all

theorem target_of_ne {name : String} (h : name ≠ "$ref") (v : Json) : target name v = [] := by
  unfold target; split <;> simp_all

theorem refsFields_eq_flatMap (fs : List (String × Json)) :
    refsFields fs = fs.flatMap fun f => target f.1 f.2 ++ refs f.2 := by
  induction fs with
  | nil => rfl
  | cons f fs ih => simp [refsFields, ih]

/-- The references in a field that may be left out. -/
def fieldRefs (f : String × Option Json) : List String :=
  (f.2.map fun v => target f.1 v ++ refs v).getD []

@[simp] theorem fieldRefs_none (name : String) : fieldRefs (name, none) = [] := rfl

@[simp] theorem fieldRefs_some (name : String) (v : Json) :
    fieldRefs (name, some v) = target name v ++ refs v := rfl

theorem fieldRefs_map {α : Type} {name : String} {f : α → Json} (hn : name ≠ "$ref")
    (hf : ∀ a, (f a).refs = []) (o : Option α) : fieldRefs (name, o.map f) = [] := by
  cases o with
  | none => rfl
  | some a => simp [target_of_ne hn, hf]

theorem refs_ofFields (fs : List (String × Option Json)) :
    (ofFields fs).refs = fs.flatMap fieldRefs := by
  rw [ofFields, refs]
  induction fs with
  | nil => rfl
  | cons f fs ih =>
    obtain ⟨name, _ | v⟩ := f
    · simpa using ih
    · simpa [refsFields] using ih

@[simp] theorem refsItems_strings (ss : List String) : refsItems (ss.map .str) = [] := by
  induction ss with
  | nil => rfl
  | cons s ss ih => simp [refsItems, refs, ih]

end Json

/-! ## Schemas -/

namespace Schema

theorem toJson_eq_obj (s : Schema) : ∃ fs, s.toJson = .obj fs := by
  cases s <;> rw [toJson] <;> exact ⟨_, rfl⟩

@[simp] theorem target_toJson (name : String) (s : Schema) : Json.target name s.toJson = [] := by
  obtain ⟨fs, h⟩ := s.toJson_eq_obj
  rw [h, Json.target_obj]

@[simp] theorem fieldRefs_readOnlyField (readOnly : Bool) :
    Json.fieldRefs (readOnlyField readOnly) = [] := by
  cases readOnly <;> rfl

mutual

/-- The JSON form of a schema refers to the components that the schema refers to. -/
theorem refs_toJson (s : Schema) : s.toJson.refs = s.refs.map pointer := by
  cases s with
  | ref key => simp [toJson, refs, Json.refs, Json.refsFields, Json.target]
  | wrapped item =>
    simp [toJson, refs, Json.refs, Json.refsFields, Json.refsItems, Json.target, refs_toJson item]
  | primitive shape readOnly =>
    have hformat : Json.fieldRefs ("format", shape.format.map .str) = [] :=
      Json.fieldRefs_map (by decide) (fun _ => rfl) _
    have hmax : Json.fieldRefs ("maxLength", shape.length.map .nat) = [] :=
      Json.fieldRefs_map (by decide) (fun _ => rfl) _
    have hmin : Json.fieldRefs ("minLength", shape.length.map .nat) = [] :=
      Json.fieldRefs_map (by decide) (fun _ => rfl) _
    have hsample : Json.fieldRefs ("examples", shape.sample.map fun s => .arr [.str s]) = [] :=
      Json.fieldRefs_map (by decide) (fun _ => rfl) _
    simp [toJson, refs, Json.refs_ofFields, Json.target_of_ne, hformat, hmax, hmin, hsample]
  | enumeration members readOnly =>
    simp [toJson, refs, Json.refs_ofFields, Json.target_of_ne, Json.refs]
  | dictionary values readOnly =>
    simp [toJson, refs, Json.refs_ofFields, Json.target_of_ne, Json.refs, refs_toJson values]
  | array items readOnly =>
    simp [toJson, refs, Json.refs_ofFields, Json.target_of_ne, Json.refs, refs_toJson items]
  | object properties required readOnly =>
    have hps := refsFields_fieldsOf properties
    cases required <;> cases properties <;>
      simp_all [toJson, refs, refsAll, Json.refs_ofFields, Json.target_of_ne, Json.refs,
        -List.map_cons]

theorem refsFields_fieldsOf (ps : List (String × Schema)) :
    Json.refsFields (fieldsOf ps) = (refsAll ps).map pointer := by
  cases ps with
  | nil => rfl
  | cons p ps =>
    obtain ⟨name, s⟩ := p
    simp [fieldsOf, Json.refsFields, refsAll, refs_toJson s, refsFields_fieldsOf ps]

end

end Schema

/-! ## Documents -/

/-- Every reference in the document points to a component that it holds. -/
def Json.NoDangling (d : Json) : Prop :=
  ∀ p ∈ d.refs, ∃ key v, p = Schema.pointer key ∧ d.at? ["components", "schemas", key] = some v

namespace Document

variable {g : Registry} {info : Info} {references : Table Schema} {d : Json} {key : String}
  {s : Schema}

/-- The document of a registry without pending entries. -/
def ofFinished (info : Info) (t : Table Schema) (references : Table Schema) : Json :=
  .ofFields [
    ("openapi", some (.str "3.1.0")),
    ("info", some (.obj [("title", .str info.title), ("version", .str info.version)])),
    ("paths", some (.obj [])),
    ("components", some (componentsOf t)),
    (referencesField,
      if references.isEmpty then none else some (.obj (references.mapValues Schema.toJson)))]

theorem build_eq (hg : g.pendingKeys = []) (info : Info) (references : Table Schema) :
    build info g references = .ok (ofFinished info (Registry.finished g.entries) references) := by
  rw [build, Registry.components_eq, hg]
  rfl

theorem at?_ofFinished_components (info : Info) (t references : Table Schema)
    (path : List String) :
    (ofFinished info t references).at? ("components" :: path) = (componentsOf t).at? path := by
  simp [ofFinished, Json.ofFields, Json.at?, Table.get?]

theorem at?_ofFinished (info : Info) {t : Table Schema} (hd : t.keys.Nodup)
    (references : Table Schema) (key : String) :
    (ofFinished info t references).at? ["components", "schemas", key] =
      (t.get? key).map Schema.toJson := by
  rw [at?_ofFinished_components, componentsOf]
  split
  · next ht =>
    rw [List.isEmpty_iff] at ht
    subst ht; rfl
  · have hs := (Table.sorted_perm (t.mapValues Schema.toJson)).symm
    have hk := Table.get?_of_perm hs (by rwa [Table.keys_mapValues]) key
    rw [← Table.get?_mapValues, hk]
    simp [Json.at?, Table.get?]

theorem refsFields_mapValues (t : Table Schema) :
    Json.refsFields (t.mapValues Schema.toJson) =
      t.flatMap fun e => e.2.refs.map Schema.pointer := by
  rw [Json.refsFields_eq_flatMap, Table.mapValues, List.flatMap_map]
  simp [Schema.refs_toJson]

theorem mem_refs_componentsOf {t : Table Schema} {p : String} (hp : p ∈ (componentsOf t).refs) :
    ∃ e ∈ t, p ∈ e.2.refs.map Schema.pointer := by
  rw [componentsOf] at hp
  split at hp
  · cases hp
  · have hs := Table.sorted_perm (t.mapValues Schema.toJson)
    simp only [Json.refs, Json.refsFields, Json.target_obj, List.nil_append, List.append_nil,
      Json.refsFields_eq_flatMap] at hp
    rw [(hs.flatMap_right _).mem_iff, ← Json.refsFields_eq_flatMap, refsFields_mapValues] at hp
    exact List.mem_flatMap.mp hp

theorem refs_ofFinished (info : Info) (t references : Table Schema) :
    (ofFinished info t references).refs =
      (componentsOf t).refs ++ references.flatMap fun e => e.2.refs.map Schema.pointer := by
  have hc : Json.target "components" (componentsOf t) = [] := Json.target_of_ne (by decide) _
  have hr : Json.fieldRefs (referencesField,
      if references.isEmpty then none else some (.obj (references.mapValues Schema.toJson))) =
      references.flatMap fun e => e.2.refs.map Schema.pointer := by
    split
    · next h =>
      rw [List.isEmpty_iff] at h
      subst h; rfl
    · simp [Json.refs, refsFields_mapValues]
  rw [ofFinished, Json.refs_ofFields]
  simp only [List.flatMap_cons, List.flatMap_nil, hr]
  simp [hc, Json.refs, Json.refsFields, Json.target_of_ne]

theorem mem_refs_ofFinished {t : Table Schema} {p : String}
    (hp : p ∈ (ofFinished info t references).refs) :
    ∃ e, (e ∈ t ∨ e ∈ references) ∧ p ∈ e.2.refs.map Schema.pointer := by
  rw [refs_ofFinished, List.mem_append] at hp
  rcases hp with hp | hp
  · obtain ⟨e, he, hpe⟩ := mem_refs_componentsOf hp
    exact ⟨e, .inl he, hpe⟩
  · obtain ⟨e, he, hpe⟩ := List.mem_flatMap.mp hp
    exact ⟨e, .inr he, hpe⟩

/-- A document dangles nowhere when its registry is finished and holds all that its schemas and
the named nodes refer to. -/
theorem noDangling_ofFinished {t : Table Schema} (hd : t.keys.Nodup)
    (ht : ∀ e ∈ t, ∀ k ∈ e.2.refs, k ∈ t.keys)
    (hr : ∀ e ∈ references, ∀ k ∈ e.2.refs, k ∈ t.keys) :
    (ofFinished info t references).NoDangling := by
  intro p hp
  obtain ⟨e, he, hpe⟩ := mem_refs_ofFinished hp
  obtain ⟨key, hkey, rfl⟩ := List.mem_map.mp hpe
  have hk : key ∈ t.keys := he.elim (fun h => ht e h key hkey) fun h => hr e h key hkey
  obtain ⟨s, hs⟩ := Option.isSome_iff_exists.mp (Table.mem_keys_iff_get?.mp hk)
  exact ⟨key, s.toJson, rfl, by rw [at?_ofFinished info hd, hs]; rfl⟩

end Document
end SchemaGraph
