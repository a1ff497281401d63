import SchemaGraph.Proofs.Catalog.Writability
import SchemaGraph.Proofs.Compile.Refinement

/-! # Read-only marks

The mark of a read-only property is put on the schema that is stored for this property and on
nothing else. In catalogs that differ only in which properties are writable, compilation fails
alike or returns the same node and adds the same keys in the same order; an added component keeps
its properties, and each of them stores one unmarked schema, with the mark where it is read-only
(`compile_of_allWritable`). The two runs go in lock-step: they meet the same plans up to flags,
so they stop at the same keys and their registries stay twins. -/

namespace SchemaGraph

/-! ## Marks on schemas -/

namespace Schema

/-- A node of a reference without a mark, on itself or inside. -/
inductive MarkFree : Schema → Prop
  | ref (key : String) : MarkFree (.ref key)
  | primitive (shape : Primitive.Shape) : MarkFree (.primitive shape false)
  | enumeration (members : List String) : MarkFree (.enumeration members false)
  | dictionary {values : Schema} (h : MarkFree values) : MarkFree (.dictionary values false)
  | array {items : Schema} (h : MarkFree items) : MarkFree (.array items false)

/-- The JSON forms of a node without and with the mark. A reference is wrapped, any other node has
one field more. -/
inductive JsonMarked : Schema → Json → Prop
  | ref (key : String) :
    JsonMarked (.ref key)
      (.obj [("allOf", .arr [(Schema.ref key).toJson]), ("readOnly", .bool true)])
  | field {s : Schema} {front back : List (String × Json)} (href : ∀ key, s ≠ .ref key)
    (hs : s.toJson = .obj (front ++ back)) :
    JsonMarked s (.obj (front ++ ("readOnly", .bool true) :: back))

/-- The second schema is the first one marked read-only, and removing the mark gives it back. -/
structure Marked (s m : Schema) : Prop where
  unmark : m.unmark = s
  json : s.JsonMarked m.toJson

variable {s : Schema}

/-- A form with the field of the mark among others takes the mark as a field. -/
theorem jsonMarked_of_fields (form : Bool → Schema) (front back : List (String × Option Json))
    (href : ∀ key, form false ≠ .ref key)
    (hform : ∀ b, (form b).toJson = .ofFields (front ++ readOnlyField b :: back)) :
    (form false).JsonMarked (form true).toJson := by
  simp only [Json.ofFields, List.filterMap_append] at hform
  rw [hform true]
  exact .field href (hform false)

theorem MarkFree.isUnmarked (h : s.MarkFree) : s.IsUnmarked := by
  cases h <;> rfl

theorem MarkFree.jsonMarked (h : s.MarkFree) : s.JsonMarked s.markReadOnly.toJson := by
  cases h with
  | ref key =>
    rw [markReadOnly, toJson]
    exact .ref key
  | primitive shape =>
    exact jsonMarked_of_fields (.primitive shape) [("type", some (.str shape.type)),
      ("format", shape.format.map .str), ("examples", shape.sample.map fun s => .arr [.str s])]
      [("maxLength", shape.length.map .nat), ("minLength", shape.length.map .nat)] (by simp)
      fun b => by rw [toJson]; rfl
  | enumeration members =>
    exact jsonMarked_of_fields (.enumeration members)
      [("type", some (.str "string")), ("enum", some (.arr (members.map .str)))] [] (by simp)
      fun b => by rw [toJson]; rfl
  | @dictionary values _ =>
    exact jsonMarked_of_fields (.dictionary values)
      [("type", some (.str "object")), ("additionalProperties", some values.toJson)] [] (by simp)
      fun b => by rw [toJson]; rfl
  | @array items _ =>
    exact jsonMarked_of_fields (.array items)
      [("type", some (.str "array")), ("items", some items.toJson)] [] (by simp)
      fun b => by rw [toJson]; rfl

theorem MarkFree.marked (h : s.MarkFree) : s.Marked s.markReadOnly :=
  ⟨h.isUnmarked.unmark_markReadOnly, h.jsonMarked⟩

end Schema

theorem Denotes.markFree {c : Catalog} {r : Reference} {s : Schema} (h : Denotes c r s) :
    s.MarkFree := by
  induction h with
  | @inline _ i _ =>
    cases i with
    | primitive p => exact .primitive _
    | enumeration members => exact .enumeration members
  | @layer _ _ l _ _ _ ih =>
    cases l with
    | array => exact .array ih
    | dictionary => exact .dictionary ih
  | component _ => exact .ref _

/-! ## The properties of a component -/

/-- The property whose schema is stored under a wire name, which is the last one that has it. -/
def storedAs (ps : List Property) (name : String) : Option Property :=
  ps.reverse.find? fun p => p.wireName == name

/-- What two tables store for one wire name: nothing, or, for properties that are the same but for
their flags, one schema without a mark, marked where the property is read-only. -/
inductive StoredAlike :
    Option Property → Option Property → Option Schema → Option Schema → Prop
  | absent : StoredAlike none none none none
  | stored {p p' : Property} {s : Schema} (hp : p.asWritable = p'.asWritable) (hs : s.MarkFree)
    (hmarked : s.Marked s.markReadOnly) :
    StoredAlike (some p) (some p') (some (if p.writable then s else s.markReadOnly))
      (some (if p'.writable then s else s.markReadOnly))

theorem StoredAlike.flags {x x' : Option Property} {y y' : Option Schema}
    (h : StoredAlike x x' y y') (hy : y ≠ y') :
    ∃ p p', x = some p ∧ x' = some p' ∧ p.writable ≠ p'.writable := by
  cases h with
  | absent => exact absurd rfl hy
  | stored => exact ⟨_, _, rfl, rfl, fun hflags => hy (by rw [hflags])⟩

/-- The property tables of two components are the same but for the marks of the properties that are
writable in one of them only. -/
structure SameButMarks (ps ps' : List Property) (t t' : Table Schema) : Prop where
  keys : t.keys = t'.keys
  stored : ∀ name, StoredAlike (storedAs ps name) (storedAs ps' name) (t.get? name) (t'.get? name)
  flags : ∀ name, t.get? name ≠ t'.get? name → ∃ p p', storedAs ps name = some p ∧
    storedAs ps' name = some p' ∧ p.writable ≠ p'.writable

namespace Compile

variable {ps ps' : List Property} {ss : List Schema}

theorem requiredNames_map_asWritable (ps : List Property) :
    requiredNames (ps.map Property.asWritable) = requiredNames ps := by
  rw [requiredNames, requiredNames, List.filter_map, List.map_map]
  rfl

theorem wireNames_map_asWritable (ps : List Property) :
    (ps.map Property.asWritable).map Property.wireName = ps.map Property.wireName := by
  rw [List.map_map]
  rfl

/-- Of the entries under one wire name the first is found, as is the property that it is for. -/
theorem storedAlike_wireEntries (h : ps.map Property.asWritable = ps'.map Property.asWritable)
    (hss : List.Forall₂ (fun _ s => s.MarkFree) ps ss) (name : String) :
    StoredAlike (ps.find? fun p => p.wireName == name) (ps'.find? fun p => p.wireName == name)
      ((wireEntries ps ss).get? name) ((wireEntries ps' ss).get? name) := by
  induction hss generalizing ps' with
  | nil =>
    obtain rfl := List.map_eq_nil_iff.mp h.symm
    exact .absent
  | @cons p s ps ss hs _ ih =>
    obtain ⟨p', ps', rfl, hp, hps⟩ := List.map_eq_cons_iff.mp h.symm
    have hname : p'.wireName = p.wireName := by
      rw [← p'.wireName_asWritable, hp, p.wireName_asWritable]
    change StoredAlike _ _ (if p.wireName = name then _ else (wireEntries ps ss).get? name)
      (if p'.wireName = name then _ else (wireEntries ps' ss).get? name)
    rw [List.find?_cons, List.find?_cons, hname]
    by_cases hw : p.wireName = name
    · rw [if_pos hw, if_pos hw, hw, beq_self_eq_true]
      exact .stored hp.symm hs hs.marked
    · rw [if_neg hw, if_neg hw, beq_eq_false_iff_ne.mpr hw]
      exact ih hps.symm

theorem sameButMarks_propertyTable (h : ps.map Property.asWritable = ps'.map Property.asWritable)
    (hss : List.Forall₂ (fun _ s => s.MarkFree) ps ss) :
    SameButMarks ps ps' (propertyTable ps ss []) (propertyTable ps' ss []) := by
  have hlength : ps.length = ss.length := hss.length_eq
  have hlength' : ps'.length = ss.length := by
    rw [← hlength, ← List.length_map Property.asWritable, ← h, List.length_map]
  have hstored : ∀ name, StoredAlike (storedAs ps name) (storedAs ps' name)
      ((propertyTable ps ss []).get? name) ((propertyTable ps' ss []).get? name) := by
    intro name
    rw [propertyTable_eq_ofList, propertyTable_eq_ofList, Table.get?_ofList, Table.get?_ofList,
      wireEntries, wireEntries, List.reverse_zipWith hlength, List.reverse_zipWith hlength']
    refine storedAlike_wireEntries ?_ (List.forall₂_reverse_iff.mpr hss) name
    rw [List.map_reverse, List.map_reverse, h]
  refine ⟨?_, hstored, fun name => (hstored name).flags⟩
  rw [propertyTable_eq_ofList, propertyTable_eq_ofList, Table.keys_ofList, Table.keys_ofList,
    keys_wireEntries hlength, keys_wireEntries hlength', ← wireNames_map_asWritable ps, h,
    wireNames_map_asWritable]

/-! ## Lock-step -/

variable {α β : Type} {c c' : Catalog} {limit n : Nat} {r : Reference} {rs : List Reference}
  {g₀ g h : Registry} {key : String} {e f : Entry}

/-- The entries under a key in compilations that began with one registry: what was there, or
pending, or the components of one reference. -/
inductive Twin (c c' : Catalog) (g₀ : Registry) (key : String) : Entry → Entry → Prop
  | old {e : Entry} (he : g₀.get? key = some e) : Twin c c' g₀ key e e
  | pending : Twin c c' g₀ key .pending .pending
  | component {r : Reference} {ps ps' : List Property} {rs : List Reference} {ss : List Schema}
    (hp : c.plan r = .ok (.component key ps rs)) (hp' : c'.plan r = .ok (.component key ps' rs))
    (hps : ps.map Property.asWritable = ps'.map Property.asWritable)
    (hss : List.Forall₂ (Denotes c) rs ss) :
    Twin c c' g₀ key (.ready (body ps ss)) (.ready (body ps' ss))

/-- The registries have the same keys in the same order, with twins under them. -/
structure Twins (c c' : Catalog) (g₀ g h : Registry) : Prop where
  keys : g.keys = h.keys
  entries : ∀ key, Option.Rel (Twin c c' g₀ key) (g.get? key) (h.get? key)

theorem Twins.refl (g₀ : Registry) : Twins c c' g₀ g₀ g₀ where
  keys := rfl
  entries key := by
    cases he : g₀.get? key with
    | none => exact .none
    | some e => exact .some (.old he)

theorem Twins.put (hgh : Twins c c' g₀ g h) (he : Twin c c' g₀ key e f) :
    Twins c c' g₀ (g.put key e) (h.put key f) where
  keys := by rw [Registry.keys_put, Registry.keys_put, hgh.keys]
  entries k := by
    rw [Registry.get?_put, Registry.get?_put]
    split
    · next hk => subst hk; exact .some he
    · exact hgh.entries k

/-- The outcomes are the same, with related registries. -/
structure InStep (Q : Registry → Registry → Prop) (o o' : Outcome α) : Prop where
  result : o.1 = o'.1
  registry : Q o.2 o'.2

theorem InStep.andThen {Q : Registry → Registry → Prop} {o o' : Outcome α}
    {f f' : α → Registry → Outcome β} (ho : InStep Q o o')
    (hf : ∀ {a g h}, o = (.ok a, g) → Q g h → InStep Q (f a g) (f' a h)) :
    InStep Q (andThen o f) (andThen o' f') := by
  obtain ⟨x, g⟩ := o
  obtain ⟨x', h⟩ := o'
  obtain ⟨rfl, hgh⟩ := ho
  cases x with
  | error e => exact ⟨rfl, hgh⟩
  | ok a => exact hf rfl hgh

theorem each_inStep {Q : Registry → Registry → Prop}
    {node node' : Reference → Registry → Outcome Schema}
    (hnode : ∀ {r g h}, Q g h → InStep Q (node r g) (node' r h)) (hgh : Q g h) :
    InStep Q (each node rs g) (each node' rs h) := by
  induction rs generalizing g h with
  | nil => exact ⟨rfl, hgh⟩
  | cons r rs ih =>
    refine (hnode hgh).andThen fun _ hgh => ?_
    exact (ih hgh).andThen fun _ hgh => ⟨rfl, hgh⟩

/-- In catalogs that become one with every property writable, compilations go in step. -/
theorem node_inStep (hc : c.allWritable = c'.allWritable) (hgh : Twins c c' g₀ g h) :
    InStep (Twins c c' g₀) (node c limit n r g) (node c' limit n r h) := by
  induction n generalizing r g h with
  | zero => exact ⟨rfl, hgh⟩
  | succ n ih =>
    have hplans := Catalog.plan_of_allWritable hc r
    rw [node_succ, node_succ]
    generalize hp : c.plan r = x, hp' : c'.plan r = x' at hplans
    cases hplans with
    | error e => exact ⟨rfl, hgh⟩
    | inline i => exact ⟨rfl, hgh⟩
    | layer l inner => exact (ih hgh).andThen fun _ hgh => ⟨rfl, hgh⟩
    | @component key rs ps ps' hps =>
      -- the registries have the same keys, so both runs stop here or both compile the properties
      simp only [ofPlan, hgh.keys]
      split
      · exact ⟨rfl, hgh⟩
      · have heach : InStep (Twins c c' g₀) (each (node c limit n) rs (g.put key .pending))
            (each (node c' limit n) rs (h.put key .pending)) :=
          each_inStep (fun hgh => ih hgh) (hgh.put .pending)
        refine heach.andThen fun {ss g h} heach hgh => ?_
        exact ⟨rfl, hgh.put (.component hp hp' hps (denotes_of_each heach))⟩

end Compile

/-! ## Whole compilations -/

/-- Under the key of a reference there are components without a mark on themselves, with the same
required names and with property tables that are the same but for marks. -/
inductive ComponentsAlike (c c' : Catalog) (g g' : Registry) (key : String) : Prop
  | intro {name : String} {arguments : List Reference} {d d' : Descriptor}
    {ps ps' : List Property} {t t' : Table Schema} {required : List String}
    (hd : c.resolve name = .ok d) (hd' : c'.resolve name = .ok d')
    (hkind : d.kind = .object ps) (hkind' : d'.kind = .object ps')
    (hkey : c.registryKey (.named name arguments) = .ok key)
    (he : g.get? key = some (.ready (.object t required false)))
    (he' : g'.get? key = some (.ready (.object t' required false)))
    (htables : SameButMarks ps ps' t t') :
    ComponentsAlike c c' g g' key

/-- The outcomes of two compilations into one registry. Both fail with the same error, or both
return the same node and add the same keys in the same order, with components that are alike. -/
inductive CompiledAlike (c c' : Catalog) (g : Registry) :
    Except Error Schema × Registry → Except Error Schema × Registry → Prop
  | error (e : Error) : CompiledAlike c c' g (.error e, g) (.error e, g)
  | ok (s : Schema) {h h' : Registry} (hle : g ≤ h) (hle' : g ≤ h') (hkeys : h.keys = h'.keys)
    (hadded : ∀ key ∈ h.keys, key ∉ g.keys → ComponentsAlike c c' h h' key) :
    CompiledAlike c c' g (.ok s, h) (.ok s, h')

namespace Catalog

open Compile

variable {c c' : Catalog} {r : Reference} {g h h' : Registry} {s : Schema} {key : String}

theorem componentsAlike_of_twins (hh : c.compile r g = (.ok s, h)) (htwins : Twins c c' g h h')
    (hkey : key ∈ h.keys) (hnew : key ∉ g.keys) : ComponentsAlike c c' h h' key := by
  obtain ⟨e, he⟩ := Registry.mem_keys.mp hkey
  -- nothing that was added is still pending
  obtain ⟨t, rfl, -⟩ := ((compile_spec_true hh).adds key e he hnew).ready
  have htwin := htwins.entries key
  rw [he] at htwin
  generalize he' : h'.get? key = x at htwin
  cases htwin with
  | some htwin =>
    cases htwin with
    | old hold => exact absurd (Registry.mem_keys.mpr ⟨_, hold⟩) hnew
    | component hp hp' hps hss =>
      have hk := registryKey_of_plan hp
      obtain ⟨name, arguments, d, rfl, hd, hkind, rfl⟩ := plan_component hp
      obtain ⟨_, _, d', hr, hd', hkind', -⟩ := plan_component hp'
      cases hr
      have hfree := (List.forall₂_map_left_iff.mp hss).imp fun _ _ h => h.markFree
      rw [body, ← requiredNames_map_asWritable, hps, requiredNames_map_asWritable] at he
      exact .intro hd hd' hkind hkind' hk he he' (sameButMarks_propertyTable hps hfree)

/-- Writability decides about marks on properties and about nothing else. -/
theorem compile_of_allWritable (hc : c.allWritable = c'.allWritable) (r : Reference)
    (g : Registry) : CompiledAlike c c' g (c.compile r g) (c'.compile r g) := by
  obtain ⟨hnode, htwins⟩ : InStep (Twins c c' g) (node c maxNestingDepth maxNestingDepth r g)
      (node c' maxNestingDepth maxNestingDepth r g) := node_inStep hc (.refl g)
  have hresult : (c.compile r g).1 = (c'.compile r g).1 := by
    rw [compile, compile, compileWithin_fst, compileWithin_fst, hnode]
  rcases hh : c.compile r g with ⟨x, h⟩
  rcases hh' : c'.compile r g with ⟨x', h'⟩
  obtain rfl : x = x' := by rwa [hh, hh'] at hresult
  cases x with
  | error e =>
    rw [compile_error hh, compile_error hh']
    exact .error e
  | ok s =>
    rw [compile_eq_ok.mp hh, compile_eq_ok.mp hh'] at htwins
    exact .ok s (compile_le hh) (compile_le hh') htwins.keys fun _ hkey hnew =>
      componentsAlike_of_twins hh htwins hkey hnew

/-- Carts with an owner that is read-only, more users and a parent. -/
def cartTypes (writable : Bool) : Catalog where
  types := [
    ⟨"Cart", [], .object [
      { name := "Owner", type := .leaf "User", writable := false },
      { name := "Users", type := .array (.leaf "User") },
      { name := "Parent", type := .leaf "Cart", writable }]⟩,
    ⟨"User", [], .object [{ name := "Role", type := .leaf "Role", writable := false }]⟩,
    ⟨"Role", [], .enumeration ["admin", "guest"]⟩]
  aliases := []
  sources := []

/-- Carts with the parent writable and read-only. Their users are one component in both. -/
theorem compile_of_allWritable_cartTypes :
    let c := cartTypes true
    let c' := cartTypes false
    let cart (parent : Schema) : Schema := .object
      [("Owner", .wrapped (.ref "User")), ("Users", .array (.ref "User") false), ("Parent", parent)]
      [] false
    c.allWritable = c'.allWritable ∧ ∃ g g',
      c.compile (.leaf "Cart") .empty = (.ok (.ref "Cart"), g) ∧
      c'.compile (.leaf "Cart") .empty = (.ok (.ref "Cart"), g') ∧
      g.keys = ["Cart", "User"] ∧ g'.keys = ["Cart", "User"] ∧
      ComponentsAlike c c' g g' "Cart" ∧ ComponentsAlike c c' g g' "User" ∧
      g.get? "Cart" = some (.ready (cart (.ref "Cart"))) ∧
      g'.get? "Cart" = some (.ready (cart (.wrapped (.ref "Cart")))) ∧
      g.get? "User" = g'.get? "User" := by
  intro c c' cart
  have hc : c.allWritable = c'.allWritable := rfl
  have halike := compile_of_allWritable hc (.leaf "Cart") .empty
  have hg : c.compile (.leaf "Cart") .empty =
      (.ok (.ref "Cart"), (c.compile (.leaf "Cart") .empty).2) := rfl
  have hg' : c'.compile (.leaf "Cart") .empty =
      (.ok (.ref "Cart"), (c'.compile (.leaf "Cart") .empty).2) := rfl
  rw [hg, hg'] at halike
  cases halike with
  | ok _ _ _ _ hadded =>
    exact ⟨hc, _, _, hg, hg', rfl, rfl, hadded "Cart" (by decide) (by decide),
      hadded "User" (by decide) (by decide), rfl, rfl, rfl⟩

end Catalog
end SchemaGraph
