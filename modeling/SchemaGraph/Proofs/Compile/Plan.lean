import SchemaGraph.Compile
import SchemaGraph.Proofs.Registry.Extension

/-! # Compilation plans

What is to be done for a reference is settled by the catalog alone: it is written in place, or it
is a layer around another reference, or it is a component with a key and the references of its
properties. The registry decides only whether a component is compiled or already there. `node`
follows the plan of its reference (`node_succ`), and every proof about compilation goes by the
plans. -/

namespace SchemaGraph

/-- What is written in place. -/
inductive Inline where
  | primitive (p : Primitive)
  | enumeration (members : List String)

def Inline.schema : Inline → Schema
  | .primitive p => .ofPrimitive p
  | .enumeration members => .enumeration members false

@[simp] theorem Inline.refs_schema (i : Inline) : i.schema.refs = [] := by
  cases i <;> simp [schema, Schema.ofPrimitive, Schema.refs]

/-- What is written in place around another schema. -/
inductive Layer where
  | array
  | dictionary

def Layer.schema : Layer → Schema → Schema
  | .array, s => .array s false
  | .dictionary, s => .dictionary s false

@[simp] theorem Layer.refs_schema (l : Layer) (s : Schema) : (l.schema s).refs = s.refs := by
  cases l <;> simp [schema, Schema.refs]

/-- What is to be done for a reference. -/
inductive Plan where
  /-- A primitive or an enumeration. -/
  | inline (i : Inline)
  /-- An array, a sequence or a map of another reference. -/
  | layer (l : Layer) (inner : Reference)
  /-- An object type: its key, its properties and the references that these are typed with. -/
  | component (key : String) (ps : List Property) (types : List Reference)

namespace Catalog

/-- The plan of a type whose parameters are bound. -/
def planOf (c : Catalog) (d : Descriptor) (arguments : List Reference)
    (b : Reference.Bindings) : Except Error Plan :=
  match d.kind with
  | .primitive p => .ok (.inline (.primitive p))
  | .enumeration members => .ok (.inline (.enumeration members))
  | .dictionary value => .ok (.layer .dictionary (value.substitute b))
  | .enumerable item => .ok (.layer .array (item.substitute b))
  | .object ps =>
    (c.identityOf d arguments).map fun identity =>
      .component (Key.encode identity) ps (ps.map fun p => p.type.substitute b)

/-- The plan of a reference. -/
def plan (c : Catalog) : Reference → Except Error Plan
  | .array element => .ok (.layer .array element)
  | .named name arguments => do
    let d ← c.resolveIn (.named name arguments) name
    let b ← d.bind arguments
    c.planOf d arguments b

/-- How the plan of a type came about, kind by kind. -/
inductive PlanOk (c : Catalog) (d : Descriptor) (arguments : List Reference)
    (b : Reference.Bindings) : Plan → Prop
  | primitive {p : Primitive} (hkind : d.kind = .primitive p) :
    PlanOk c d arguments b (.inline (.primitive p))
  | enumeration {members : List String} (hkind : d.kind = .enumeration members) :
    PlanOk c d arguments b (.inline (.enumeration members))
  | dictionary {value : Reference} (hkind : d.kind = .dictionary value) :
    PlanOk c d arguments b (.layer .dictionary (value.substitute b))
  | enumerable {item : Reference} (hkind : d.kind = .enumerable item) :
    PlanOk c d arguments b (.layer .array (item.substitute b))
  | object {ps : List Property} {identity : String} (hkind : d.kind = .object ps)
    (hidentity : c.identityOf d arguments = .ok identity) :
    PlanOk c d arguments b
      (.component (Key.encode identity) ps (ps.map fun p => p.type.substitute b))

theorem planOf_eq_ok {c : Catalog} {d : Descriptor} {arguments : List Reference}
    {b : Reference.Bindings} {p : Plan} :
    c.planOf d arguments b = .ok p ↔ c.PlanOk d arguments b p := by
  constructor
  · intro h
    rw [planOf] at h
    split at h
    · next hkind => cases h; exact .primitive hkind
    · next hkind => cases h; exact .enumeration hkind
    · next hkind => cases h; exact .dictionary hkind
    · next hkind => cases h; exact .enumerable hkind
    · next hkind =>
      cases hs : c.identityOf d arguments with
      | error e => rw [hs] at h; cases h
      | ok s => rw [hs] at h; cases h; exact .object hkind hs
  · rintro (hkind | hkind | hkind | hkind | ⟨hkind, hidentity⟩)
    case object => simp only [planOf, hkind, hidentity, Except.map]
    all_goals simp only [planOf, hkind]

end Catalog

namespace Compile

variable {c : Catalog} {limit n : Nat} {r : Reference} {rs : List Reference} {g g' : Registry}
  {s : Schema} {ss : List Schema} {α β : Type}

/-! ## The references of the properties -/

/-- Compiles references in turn. -/
def each (node : Reference → Registry → Outcome Schema) :
    List Reference → Registry → Outcome (List Schema)
  | [], g => (.ok [], g)
  | r :: rs, g =>
    andThen (node r g) fun s g => andThen (each node rs g) fun ss g => (.ok (s :: ss), g)

/-- Puts the schemas of properties under their wire names. -/
def propertyTable : List Property → List Schema → Table Schema → Table Schema
  | p :: ps, s :: ss, done => propertyTable ps ss (done.put p.wireName (propertySchema p s))
  | _, _, done => done

/-- The component of an object type, given the schemas of its properties. -/
def body (ps : List Property) (ss : List Schema) : Schema :=
  .object (propertyTable ps ss []) (requiredNames ps) false

@[simp] theorem andThen_ok (a : α) (g : Registry) (f : α → Registry → Outcome β) :
    andThen (.ok a, g) f = f a g := rfl

@[simp] theorem andThen_error (e : Error) (g : Registry) (f : α → Registry → Outcome β) :
    andThen (.error e, g) f = (.error e, g) := rfl

theorem andThen_assoc {γ : Type} (o : Outcome α) (f : α → Registry → Outcome β)
    (h : β → Registry → Outcome γ) :
    andThen (andThen o f) h = andThen o fun a g => andThen (f a g) h := by
  obtain ⟨a | a, g⟩ := o <;> rfl

theorem andThen_eq_ok {o : Outcome α} {f : α → Registry → Outcome β} {b : β} :
    andThen o f = (.ok b, g') ↔ ∃ a g, o = (.ok a, g) ∧ f a g = (.ok b, g') := by
  obtain ⟨a | a, g⟩ := o
  · simp
  · constructor
    · exact fun h => ⟨a, g, rfl, h⟩
    · rintro ⟨_, _, ⟨⟩, h⟩; exact h

theorem each_cons_eq_ok {node : Reference → Registry → Outcome Schema} :
    each node (r :: rs) g = (.ok ss, g') ↔
      ∃ s g₁ ss₁, node r g = (.ok s, g₁) ∧ each node rs g₁ = (.ok ss₁, g') ∧ ss = s :: ss₁ := by
  simp only [each, andThen_eq_ok, Prod.mk.injEq, Except.ok.injEq]
  constructor
  · rintro ⟨s, g₁, hs, ss₁, g₂, hss, rfl, rfl⟩; exact ⟨s, g₁, ss₁, hs, hss, rfl⟩
  · rintro ⟨s, g₁, ss₁, hs, hss, rfl⟩; exact ⟨s, g₁, hs, ss₁, g', hss, rfl, rfl⟩

theorem properties_eq_each (node : Reference → Registry → Outcome Schema)
    (b : Reference.Bindings) (ps : List Property) (done : Table Schema) (g : Registry) :
    properties node b ps done g =
      andThen (each node (ps.map fun p => p.type.substitute b) g) fun ss g =>
        (.ok (propertyTable ps ss done), g) := by
  induction ps generalizing done g with
  | nil => rfl
  | cons p ps ih => simp only [properties, List.map_cons, each, andThen_assoc, ih]; rfl

/-! ## Nodes by their plans -/

/-- Follows a plan. -/
def ofPlan (node : Reference → Registry → Outcome Schema) : Plan → Registry → Outcome Schema
  | .inline i, g => (.ok i.schema, g)
  | .layer l r, g => andThen (node r g) fun s g => (.ok (l.schema s), g)
  | .component key ps rs, g =>
    if key ∈ g.keys then (.ok (.ref key), g)
    else
      andThen (each node rs (g.put key .pending)) fun ss g =>
        (.ok (.ref key), g.finalize key (body ps ss))

theorem object_eq_ofPlan (node : Reference → Registry → Outcome Schema) (b : Reference.Bindings)
    (ps : List Property) (key : String) (g : Registry) :
    object node b ps key g =
      ofPlan node (.component key ps (ps.map fun p => p.type.substitute b)) g := by
  by_cases hk : key ∈ g.keys
  · simp [object, ofPlan, Registry.reserve, Registry.contains_iff, hk]
  · simp [object, ofPlan, Registry.reserve, Registry.contains_iff, hk, properties_eq_each,
      andThen_assoc, body]

/-- One level of compilation follows the plan of the reference. -/
theorem node_succ (c : Catalog) (limit n : Nat) (r : Reference) (g : Registry) :
    node c limit (n + 1) r g =
      match c.plan r with
      | .error e => (.error e, g)
      | .ok p => ofPlan (node c limit n) p g := by
  cases r with
  | array element => rfl
  | named name arguments =>
    simp only [node, Catalog.plan]
    cases c.resolveIn (.named name arguments) name with
    | error e => rfl
    | ok d =>
      change ofDescriptor _ _ _ _ _ = _
      simp only [ofDescriptor]
      cases hb : d.bind arguments with
      | error e => simp [hb, bind, Except.bind]
      | ok b =>
        simp only [hb, bind, Except.bind, Catalog.planOf]
        cases d.kind with
        | object ps =>
          cases c.identityOf d arguments with
          | error e => rfl
          | ok identity => exact object_eq_ofPlan ..
        | _ => rfl

/-- How a node came about that was compiled at one level more than the references in it. -/
inductive NodeOk (c : Catalog) (limit n : Nat) (r : Reference) (g : Registry) :
    Schema → Registry → Prop
  | inline {i : Inline} (hp : c.plan r = .ok (.inline i)) : NodeOk c limit n r g i.schema g
  | layer {l : Layer} {inner : Reference} {s : Schema} {g' : Registry}
      (hp : c.plan r = .ok (.layer l inner)) (hn : node c limit n inner g = (.ok s, g')) :
      NodeOk c limit n r g (l.schema s) g'
  | hit {key : String} {ps : List Property} {rs : List Reference}
      (hp : c.plan r = .ok (.component key ps rs)) (hk : key ∈ g.keys) :
      NodeOk c limit n r g (.ref key) g
  | fresh {key : String} {ps : List Property} {rs : List Reference} {ss : List Schema}
      {g' : Registry} (hp : c.plan r = .ok (.component key ps rs)) (hk : key ∉ g.keys)
      (he : each (node c limit n) rs (g.put key .pending) = (.ok ss, g')) :
      NodeOk c limit n r g (.ref key) (g'.finalize key (body ps ss))

theorem node_ok (h : node c limit (n + 1) r g = (.ok s, g')) : NodeOk c limit n r g s g' := by
  rw [node_succ] at h
  split at h
  · cases h
  · next p hp =>
    cases p with
    | inline i => cases h; exact .inline hp
    | layer l inner =>
      obtain ⟨s, g₁, hn, he⟩ := andThen_eq_ok.mp h
      cases he; exact .layer hp hn
    | component key ps rs =>
      rw [ofPlan] at h
      split at h
      · next hk => cases h; exact .hit hp hk
      · next hk =>
        obtain ⟨ss, g₁, hn, he⟩ := andThen_eq_ok.mp h
        cases he; exact .fresh hp hk hn

end Compile
end SchemaGraph
