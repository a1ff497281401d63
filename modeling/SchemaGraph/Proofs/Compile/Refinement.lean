import SchemaGraph.Proofs.Compile.Keys

/-! # Compilation without a registry

The node of a reference and the component of an object type are read off the catalog alone, with no
registry and no depth. Compilation returns just these nodes, and the entries that it adds are just
these components, whatever the registry held when it began. -/

namespace SchemaGraph

variable {c : Catalog} {r : Reference} {rs : List Reference} {b : Reference.Bindings}
  {ps : List Property} {g g' : Registry} {s t : Schema}

/-- The node of a reference. An array is an array of its element, and the type of any other
reference decides what it is: a primitive or an enumeration is written in place, a map or a
sequence is written around the node of its value or item with the arguments in it, and an object
type is referred to under its key, whatever its properties. -/
inductive PlainNode (c : Catalog) : Reference → Schema → Prop
  | array {element : Reference} {s : Schema} (hs : PlainNode c element s) :
    PlainNode c (.array element) (.array s false)
  | primitive {name : String} {arguments : List Reference} {d : Descriptor} {p : Primitive}
    (hd : c.resolve name = .ok d) (hkind : d.kind = .primitive p) :
    PlainNode c (.named name arguments) (.ofPrimitive p)
  | enumeration {name : String} {arguments : List Reference} {d : Descriptor}
    {members : List String} (hd : c.resolve name = .ok d) (hkind : d.kind = .enumeration members) :
    PlainNode c (.named name arguments) (.enumeration members false)
  | dictionary {name : String} {arguments : List Reference} {d : Descriptor} {value : Reference}
    {s : Schema} (hd : c.resolve name = .ok d) (hkind : d.kind = .dictionary value)
    (hs : PlainNode c (value.substitute (.ofLists d.parameters arguments)) s) :
    PlainNode c (.named name arguments) (.dictionary s false)
  | enumerable {name : String} {arguments : List Reference} {d : Descriptor} {item : Reference}
    {s : Schema} (hd : c.resolve name = .ok d) (hkind : d.kind = .enumerable item)
    (hs : PlainNode c (item.substitute (.ofLists d.parameters arguments)) s) :
    PlainNode c (.named name arguments) (.array s false)
  | object {name : String} {arguments : List Reference} {d : Descriptor} {ps : List Property}
    {key : String} (hd : c.resolve name = .ok d) (hkind : d.kind = .object ps)
    (hkey : c.registryKey (.named name arguments) = .ok key) :
    PlainNode c (.named name arguments) (.ref key)

/-- The component of an object type with parameters bound. A wire name stands where it comes first
among the properties, with the node of the last property that has it, marked read-only unless this
property is writable. -/
inductive PlainComponent (c : Catalog) (b : Reference.Bindings) (ps : List Property) : Schema → Prop
  | intro {nodes : List Schema} {entries : Table Schema}
    (hnodes : List.Forall₂ (fun p n => PlainNode c (p.type.substitute b) n) ps nodes)
    (hkeys : entries.keys = (ps.map (·.wireName)).eraseDups)
    (hget : ∀ name, entries.get? name = Table.get? name (List.zipWith
      (fun p n => (p.wireName, if p.writable then n else n.markReadOnly)) ps nodes).reverse) :
    PlainComponent c b ps (.object entries ((ps.filter (·.required)).map (·.wireName)) false)

theorem PlainNode.unique (hs : PlainNode c r s) (ht : PlainNode c r t) : s = t := by
  induction hs generalizing t with
  | array hs ih =>
    cases ht with
    | array ht => rw [ih ht]
  | _ => cases ht <;> grind

/-! ## Plans and types -/

namespace Catalog

theorem registryKey_of_plan {key : String} (h : c.plan r = .ok (.component key ps rs)) :
    c.registryKey r = .ok key := by
  obtain ⟨s, hs, rfl⟩ := identity_of_plan h
  rw [registryKey, hs]
  rfl

/-- A component belongs to a named type with properties. -/
theorem plan_component {key : String} (h : c.plan r = .ok (.component key ps rs)) :
    ∃ name arguments d, r = .named name arguments ∧ c.resolve name = .ok d ∧ d.kind = .object ps ∧
      rs = ps.map fun p => p.type.substitute (.ofLists d.parameters arguments) := by
  cases r with
  | array element => cases h
  | named name arguments =>
    obtain ⟨d, hd, -, hp⟩ := plan_named_eq_ok.mp h
    cases hp with
    | object hkind => exact ⟨name, arguments, d, rfl, hd, hkind, rfl⟩

end Catalog

/-- Following plans gives the node that is read off the catalog. -/
theorem Denotes.plainNode (h : Denotes c r s) : PlainNode c r s := by
  induction h with
  | @inline r i hp =>
    cases r with
    | array element => cases hp
    | named name arguments =>
      obtain ⟨d, hd, -, hp⟩ := Catalog.plan_named_eq_ok.mp hp
      cases hp with
      | primitive hkind => exact .primitive hd hkind
      | enumeration hkind => exact .enumeration hd hkind
  | @layer r inner l s hp _ ih =>
    cases r with
    | array element => cases hp; exact .array ih
    | named name arguments =>
      obtain ⟨d, hd, -, hp⟩ := Catalog.plan_named_eq_ok.mp hp
      cases hp with
      | dictionary hkind => exact .dictionary hd hkind ih
      | enumerable hkind => exact .enumerable hd hkind ih
  | component hp =>
    have hkey := Catalog.registryKey_of_plan hp
    obtain ⟨name, arguments, d, rfl, hd, hkind, -⟩ := Catalog.plan_component hp
    exact .object hd hkind hkey

/-! ## Components -/

/-- Putting the nodes of the properties under their wire names in turn gives the component. -/
theorem plainComponent_iff :
    PlainComponent c b ps s ↔
      ∃ ss, List.Forall₂ (fun p n => PlainNode c (p.type.substitute b) n) ps ss ∧
        s = Compile.body ps ss := by
  constructor
  · rintro @⟨ss, entries, hss, hkeys, hget⟩
    refine ⟨ss, hss, ?_⟩
    rw [Compile.body, Compile.propertyTable_eq_ofList]
    congr 1
    refine (Table.eq_of_get?_eq (Table.nodup_keys_ofList _) ?_ fun name => ?_).symm
    · rw [Table.keys_ofList, Compile.keys_wireEntries hss.length_eq, hkeys]
    · rw [Table.get?_ofList, hget]
      rfl
  · rintro ⟨ss, hss, rfl⟩
    refine .intro hss ?_ fun name => ?_
    · rw [Compile.propertyTable_eq_ofList, Table.keys_ofList,
        Compile.keys_wireEntries hss.length_eq]
    · rw [Compile.propertyTable_eq_ofList, Table.get?_ofList]
      rfl

theorem PlainComponent.unique (hs : PlainComponent c b ps s) (ht : PlainComponent c b ps t) :
    s = t := by
  obtain ⟨ss, hss, rfl⟩ := plainComponent_iff.mp hs
  obtain ⟨ts, hts, rfl⟩ := plainComponent_iff.mp ht
  have hunique : Relator.RightUnique fun (p : Property) n =>
      PlainNode c (p.type.substitute b) n := fun _ _ _ => PlainNode.unique
  rw [hunique.forall₂ hss hts]

namespace Catalog

/-- Compilation refines the reading of nodes and components off the catalog. -/
theorem compile_refines_plain (h : c.compile r g = (.ok s, g')) :
    (∀ t, PlainNode c r t ↔ t = s) ∧
    ∀ key ∈ g'.keys, key ∉ g.keys →
      ∃ name arguments d ps s, c.resolve name = .ok d ∧ d.kind = .object ps ∧
        c.registryKey (.named name arguments) = .ok key ∧ g'.get? key = some (.ready s) ∧
        ∀ t, PlainComponent c (.ofLists d.parameters arguments) ps t ↔ t = s := by
  have hspec := compile_spec_true h
  have hnode := hspec.denotes.plainNode
  refine ⟨fun t => ⟨fun ht => ht.unique hnode, fun ht => ht ▸ hnode⟩, fun key hkey hnew => ?_⟩
  obtain ⟨e, he⟩ := Registry.mem_keys.mp hkey
  obtain ⟨u, ps, rs, ss, -, hp, hss, -, rfl⟩ := hspec.adds key e he hnew
  have hk := registryKey_of_plan hp
  obtain ⟨name, arguments, d, rfl, hd, hkind, rfl⟩ := plan_component hp
  have hnodes := (List.forall₂_map_left_iff.mp hss).imp fun _ _ h => h.plainNode
  have hbody := plainComponent_iff.mpr ⟨ss, hnodes, rfl⟩
  exact ⟨name, arguments, d, ps, _, hd, hkind, hk, he,
    fun t => ⟨fun ht => ht.unique hbody, fun ht => ht ▸ hbody⟩⟩

/-- A chain of values: it contains itself, and two of its properties have one wire name. -/
def chainTypes : Catalog where
  types := [
    ⟨"Chain`1", ["T"], .object [
      { name := "Head", type := .leaf "T", serializedName := some "value" },
      { name := "Tail", type := .named "Chain`1" [.leaf "T"], writable := false, required := true },
      { name := "Values", type := .array (.leaf "T"), serializedName := some "value" }]⟩,
    ⟨"Switch", [], .enumeration ["on", "off"]⟩]
  aliases := []
  sources := []

/-- A chain that is compiled beside a pending entry. -/
theorem compile_refines_plain_chainTypes :
    let g := Registry.empty.put "Person" .pending
    let r := Reference.named "Chain`1" [.leaf "Switch"]
    let key := "Chain-3C-Switch-3E-"
    let component := Schema.object
      [("value", .array (.enumeration ["on", "off"] false) false), ("Tail", .wrapped (.ref key))]
      ["Tail"] false
    ∃ g', chainTypes.compile r g = (.ok (.ref key), g') ∧ PlainNode chainTypes r (.ref key) ∧
      g'.get? key = some (.ready component) ∧
      ∃ name arguments d ps, chainTypes.resolve name = .ok d ∧ d.kind = .object ps ∧
        chainTypes.registryKey (.named name arguments) = .ok key ∧
        PlainComponent chainTypes (.ofLists d.parameters arguments) ps component := by
  intro g r key component
  have h : chainTypes.compile r g = (.ok (.ref key), (chainTypes.compile r g).2) := rfl
  have hget : (chainTypes.compile r g).2.get? key = some (.ready component) := rfl
  have hkey := Registry.mem_keys.mpr ⟨_, hget⟩
  obtain ⟨hnode, hcomponents⟩ := compile_refines_plain h
  obtain ⟨name, arguments, d, ps, s, hd, hkind, hk, he, hs⟩ := hcomponents key hkey (by decide)
  rw [hget] at he
  cases he
  exact ⟨_, h, (hnode _).mpr rfl, hget, name, arguments, d, ps, hd, hkind, hk, (hs _).mpr rfl⟩

end Catalog
end SchemaGraph
