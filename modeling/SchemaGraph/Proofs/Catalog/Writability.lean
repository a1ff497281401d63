import SchemaGraph.Proofs.Compile.Plan
import SchemaGraph.Proofs.Identity.Display

/-! # Catalogs up to writability

Whether properties are writable plays no part in finding types, in identities or in plans: all of
these commute with making every property writable. Two catalogs that become one in this way find
types under the same names and fail for the same reasons (`plan_of_allWritable`). -/

namespace SchemaGraph

def Property.asWritable (p : Property) : Property := { p with writable := true }

def Kind.allWritable : Kind → Kind
  | .primitive p => .primitive p
  | .enumeration members => .enumeration members
  | .dictionary value => .dictionary value
  | .enumerable item => .enumerable item
  | .object ps => .object (ps.map Property.asWritable)

def Descriptor.allWritable (d : Descriptor) : Descriptor := { d with kind := d.kind.allWritable }

/-- The catalog with every property writable. -/
def Catalog.allWritable (c : Catalog) : Catalog :=
  { c with types := c.types.map Descriptor.allWritable }

def Plan.allWritable : Plan → Plan
  | .inline i => .inline i
  | .layer l inner => .layer l inner
  | .component key ps rs => .component key (ps.map Property.asWritable) rs

@[simp] theorem Property.wireName_asWritable (p : Property) :
    p.asWritable.wireName = p.wireName := rfl

@[simp] theorem Descriptor.name_allWritable (d : Descriptor) : d.allWritable.name = d.name := rfl

namespace Catalog

variable {c c' : Catalog} {name : String} {r : Reference}

/-! ## Finding types -/

theorem find?_allWritable (c : Catalog) (name : String) :
    c.allWritable.find? name = (c.find? name).map Descriptor.allWritable := by
  rw [find?, allWritable, List.find?_map]
  rfl

theorem candidates_allWritable (c : Catalog) (name : String) :
    c.allWritable.candidates name = (c.candidates name).map Descriptor.allWritable := by
  have hfilter : c.allWritable.types.filter (fun d => endsIn d.name name) =
      (c.types.filter fun d => endsIn d.name name).map Descriptor.allWritable := by
    rw [allWritable, List.filter_map]
    rfl
  rw [candidates, candidates, hfilter]
  exact (List.map_mergeSort (f := Descriptor.allWritable) fun _ _ _ _ => rfl).symm

theorem resolve_allWritable (c : Catalog) (name : String) :
    c.allWritable.resolve name = (c.resolve name).map Descriptor.allWritable := by
  have hname : c.allWritable.lookupName name = c.lookupName name := rfl
  simp only [resolve, hname, find?_allWritable, candidates_allWritable]
  cases c.find? (c.lookupName name) with
  | some d => rfl
  | none =>
    rcases c.candidates (c.lookupName name) with _ | ⟨d, _ | ⟨e, ds⟩⟩
    · rfl
    · rfl
    · simp [Except.map]

theorem resolveIn_allWritable (c : Catalog) (r : Reference) (name : String) :
    c.allWritable.resolveIn r name = (c.resolveIn r name).map Descriptor.allWritable := by
  rw [resolveIn, resolveIn, resolve_allWritable]
  cases c.resolve name <;> rfl

/-! ## Identities -/

theorem unresolved?_allWritable (c : Catalog) : c.allWritable.unresolved? = c.unresolved? := by
  funext q
  cases q with
  | array r => rfl
  | named name rs =>
    rw [unresolved?, unresolved?, resolve_allWritable]
    cases c.resolve name <;> rfl

theorem nameInFull_allWritable (c : Catalog) : c.allWritable.nameInFull = c.nameInFull := by
  funext name
  rw [nameInFull, nameInFull, resolve_allWritable]
  cases c.resolve name <;> rfl

theorem identityOf_allWritable (c : Catalog) (d : Descriptor) (arguments : List Reference) :
    c.allWritable.identityOf d.allWritable arguments = c.identityOf d arguments := by
  rw [identityOf, identityOf, Descriptor.name_allWritable,
    identityArguments_eq_checked fun r _ => identity_eq_checked c.allWritable r,
    identityArguments_eq_checked fun r _ => identity_eq_checked c r,
    checked, checked, unresolved?_allWritable, nameInFull_allWritable]

/-! ## Plans -/

theorem planOf_allWritable (c : Catalog) (d : Descriptor) (arguments : List Reference)
    (b : Reference.Bindings) :
    c.allWritable.planOf d.allWritable arguments b =
      (c.planOf d arguments b).map Plan.allWritable := by
  rw [planOf, planOf, identityOf_allWritable, Descriptor.allWritable]
  cases d.kind with
  | object ps =>
    simp only [Kind.allWritable, List.map_map]
    cases c.identityOf d arguments <;> rfl
  | _ => rfl

theorem plan_allWritable (c : Catalog) (r : Reference) :
    c.allWritable.plan r = (c.plan r).map Plan.allWritable := by
  cases r with
  | array element => rfl
  | named name arguments =>
    rw [plan, plan, resolveIn_allWritable]
    cases c.resolveIn (.named name arguments) name with
    | error e => rfl
    | ok d =>
      change (d.bind arguments >>= _) = (d.bind arguments >>= _).map _
      cases d.bind arguments with
      | error e => rfl
      | ok b => exact c.planOf_allWritable d arguments b

/-- The plans of one reference in two catalogs: a failure is the same, and so is everything but the
flags of the properties of a component. -/
inductive PlansAlike : Except Error Plan → Except Error Plan → Prop
  | error (e : Error) : PlansAlike (.error e) (.error e)
  | inline (i : Inline) : PlansAlike (.ok (.inline i)) (.ok (.inline i))
  | layer (l : Layer) (inner : Reference) : PlansAlike (.ok (.layer l inner)) (.ok (.layer l inner))
  | component (key : String) (rs : List Reference) {ps ps' : List Property}
    (hps : ps.map Property.asWritable = ps'.map Property.asWritable) :
    PlansAlike (.ok (.component key ps rs)) (.ok (.component key ps' rs))

theorem plan_of_allWritable (h : c.allWritable = c'.allWritable) (r : Reference) :
    PlansAlike (c.plan r) (c'.plan r) := by
  have hplan : (c.plan r).map Plan.allWritable = (c'.plan r).map Plan.allWritable := by
    rw [← plan_allWritable, ← plan_allWritable, h]
  generalize c.plan r = x at hplan ⊢
  generalize c'.plan r = x' at hplan ⊢
  cases x with
  | error e =>
    cases x' with
    | error e' => cases hplan; exact .error e
    | ok p' => cases hplan
  | ok p =>
    cases x' with
    | error e' => cases hplan
    | ok p' =>
      have hp : p.allWritable = p'.allWritable := Except.ok.inj hplan
      cases p with
      | inline i => cases p' <;> cases hp; exact .inline i
      | layer l inner => cases p' <;> cases hp; exact .layer l inner
      | component key ps rs =>
        cases p' with
        | component key' ps' rs' =>
          obtain ⟨rfl, hps, rfl⟩ := Plan.component.inj hp
          exact .component key rs hps
        | _ => cases hp

end Catalog
end SchemaGraph
