import SchemaGraph.Identity
import SchemaGraph.Proofs.Reference.Display

/-! # Identities as displays

An identity is what the reference displays once every name in it is the full name of its type. It
is rendered while the names are looked up, each before those in its arguments, so the first name
that stands for no type ends it with an error that tells the reference to that type. Looking up all
the names beforehand and displaying the reference afterwards comes to the same
(`identity_eq_checked`). -/

namespace SchemaGraph

namespace Reference

mutual

/-- The named references in a reference, each before those in its arguments. -/
def nodes : Reference → List Reference
  | .named name arguments => .named name arguments :: nodesAll arguments
  | .array element => nodes element

def nodesAll : List Reference → List Reference
  | [] => []
  | argument :: more => nodes argument ++ nodesAll more

end

variable {name : String} {q r : Reference} {rs : List Reference}

theorem mem_nodesAll : q ∈ nodesAll rs ↔ ∃ r ∈ rs, q ∈ r.nodes := by
  induction rs with
  | nil => simp [nodesAll]
  | cons r rs ih => simp [nodesAll, ih]

/-- The names that occur are those of the named references. -/
theorem occurs_iff : Occurs name r ↔ ∃ q ∈ r.nodes, q.name? = some name := by
  constructor
  · intro h
    induction h with
    | here => exact ⟨_, List.mem_cons_self, rfl⟩
    | argument hr _ ih =>
      obtain ⟨q, hq, hname⟩ := ih
      exact ⟨q, List.mem_cons_of_mem _ (mem_nodesAll.mpr ⟨_, hr, hq⟩), hname⟩
    | element _ ih => exact ih
  · intro ⟨q, hq, hname⟩
    induction r with
    | named head rs ih =>
      rcases List.mem_cons.mp hq with rfl | hq
      · obtain rfl : head = name := Option.some.inj hname
        exact .here
      · obtain ⟨r, hr, hq⟩ := mem_nodesAll.mp hq
        exact .argument hr (ih r hr hq)
    | array r ih => exact .element (ih hq)

end Reference

namespace Catalog

open Reference (nodes nodesAll bracketed displayMore mapNames mapNamesAll Occurs)

variable {c : Catalog} {name s : String} {q r : Reference} {rs : List Reference}
  {qs qs' : List Reference} {e : Error}

/-- The full name of the type that a name stands for. -/
def nameInFull (c : Catalog) (name : String) : String :=
  match c.resolve name with
  | .ok d => d.name
  | .error _ => name

/-- What is wrong with the name of a reference, if anything is. -/
def unresolved? (c : Catalog) : Reference → Option Error
  | .named name arguments =>
    match c.resolve name with
    | .ok _ => none
    | .error cause => some (.unresolved (Reference.named name arguments).display cause)
  | .array _ => none

/-- The text, unless one of the references names no type. -/
def checked (c : Catalog) (qs : List Reference) (text : String) : Except Error String :=
  match qs.findSome? c.unresolved? with
  | none => .ok text
  | some e => .error e

/-! ## Looking up before rendering -/

theorem checked_bind {t u : String} {f : String → String → String} :
    (do let s ← c.checked qs t; return f s (← c.checked qs' u)) =
      c.checked (qs ++ qs') (f t u) := by
  rw [checked, checked, checked, List.findSome?_append]
  cases qs.findSome? c.unresolved? with
  | some e => rfl
  | none => cases qs'.findSome? c.unresolved? <;> rfl

theorem identityMore_eq_checked
    (h : ∀ r ∈ rs, c.identity r = c.checked r.nodes (r.mapNames c.nameInFull).display) :
    c.identityMore rs =
      c.checked (nodesAll rs) (displayMore (mapNamesAll c.nameInFull rs)) := by
  induction rs with
  | nil => rfl
  | cons r rs ih =>
    rw [List.forall_mem_cons] at h
    rw [identityMore, h.1, ih h.2, nodesAll, mapNamesAll, displayMore]
    exact checked_bind

theorem identityArguments_eq_checked
    (h : ∀ r ∈ rs, c.identity r = c.checked r.nodes (r.mapNames c.nameInFull).display) :
    c.identityArguments rs =
      c.checked (nodesAll rs) (bracketed (mapNamesAll c.nameInFull rs)) := by
  cases rs with
  | nil => rfl
  | cons r rs =>
    rw [List.forall_mem_cons] at h
    rw [identityArguments, h.1, identityMore_eq_checked h.2, nodesAll, mapNamesAll, bracketed]
    exact checked_bind (f := fun s t => "<" ++ s ++ t ++ ">")

/-- An identity is the display of the reference under full names, unless a name stands for no
type. -/
theorem identity_eq_checked (c : Catalog) (r : Reference) :
    c.identity r = c.checked r.nodes (r.mapNames c.nameInFull).display := by
  induction r with
  | named name rs ih =>
    rw [identity, identityArguments_eq_checked ih, nodes, mapNames, Reference.display_named,
      checked, checked, resolveIn, nameInFull, List.findSome?_cons, unresolved?]
    cases c.resolve name with
    | error cause => rfl
    | ok d => cases (nodesAll rs).findSome? c.unresolved? <;> rfl
  | array r ih =>
    rw [identity, ih, nodes, mapNames, Reference.display, checked, checked]
    cases r.nodes.findSome? c.unresolved? <;> rfl

/-! ## Names that stand for no type -/

theorem unresolved?_eq_none :
    c.unresolved? q = none ↔ ∀ name, q.name? = some name → ∃ d, c.resolve name = .ok d := by
  cases q with
  | named name rs => cases h : c.resolve name <;> simp [unresolved?, Reference.name?, h]
  | array r => simp [unresolved?, Reference.name?]

theorem unresolved?_eq_some :
    c.unresolved? q = some e ↔ ∃ name arguments cause, q = .named name arguments ∧
      c.resolve name = .error cause ∧ e = .unresolved q.display cause := by
  cases q with
  | named name rs => cases h : c.resolve name <;> simp [unresolved?, h, eq_comm]
  | array r => simp [unresolved?]

theorem checked_eq_ok {t : String} :
    c.checked qs t = .ok s ↔ (∀ q ∈ qs, c.unresolved? q = none) ∧ s = t := by
  rw [checked, ← List.findSome?_eq_none_iff]
  cases qs.findSome? c.unresolved? <;> simp [eq_comm]

theorem checked_eq_error {t : String} :
    c.checked qs t = .error e ↔ qs.findSome? c.unresolved? = some e := by
  rw [checked]
  cases qs.findSome? c.unresolved? <;> simp

/-- An identity is rendered just if all names stand for types, and it is what the reference displays
under their full names. Otherwise the first reference to no type is reported, as it is written,
with what is wrong with its name. -/
theorem identity_eq_display (c : Catalog) (r : Reference) :
    (∀ s, c.identity r = .ok s ↔
      (∀ name, Occurs name r → ∃ d, c.resolve name = .ok d) ∧
        s = (r.mapNames c.nameInFull).display) ∧
    ∀ e, c.identity r = .error e ↔
      ∃ before name arguments after cause,
        r.nodes = before ++ .named name arguments :: after ∧
        (∀ q ∈ before, ∀ n, q.name? = some n → ∃ d, c.resolve n = .ok d) ∧
        c.resolve name = .error cause ∧
        e = .unresolved (Reference.named name arguments).display cause := by
  rw [identity_eq_checked]
  constructor
  · intro s
    rw [checked_eq_ok]
    refine and_congr_left fun _ => ⟨fun h name hname => ?_, fun h q hq => ?_⟩
    · obtain ⟨q, hq, hqname⟩ := Reference.occurs_iff.mp hname
      exact unresolved?_eq_none.mp (h q hq) name hqname
    · exact unresolved?_eq_none.mpr fun name hname =>
        h name (Reference.occurs_iff.mpr ⟨q, hq, hname⟩)
  · intro e
    rw [checked_eq_error, List.findSome?_eq_some_iff]
    constructor
    · rintro ⟨before, q, after, hnodes, he, hbefore⟩
      obtain ⟨name, arguments, cause, rfl, hcause, rfl⟩ := unresolved?_eq_some.mp he
      exact ⟨before, name, arguments, after, cause, hnodes,
        fun q hq => unresolved?_eq_none.mp (hbefore q hq), hcause, rfl⟩
    · rintro ⟨before, name, arguments, after, cause, hnodes, hbefore, hcause, rfl⟩
      exact ⟨before, _, after, hnodes,
        unresolved?_eq_some.mpr ⟨name, arguments, cause, rfl, hcause, rfl⟩,
        fun q hq => unresolved?_eq_none.mpr (hbefore q hq)⟩

end Catalog
end SchemaGraph
