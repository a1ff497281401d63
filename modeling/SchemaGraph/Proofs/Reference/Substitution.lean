import SchemaGraph.Compile
import SchemaGraph.Proofs.Reference.Names

/-! # Substitution in two steps

A substitution leaves the shape of a reference alone above its leaves, so a second substitution
finds the same nodes with arguments and acts on what the first put in the place of leaves. Both
together are one substitution of composed bindings (`substitute_substitute`). For a generic type in
another this means: binding its parameters to arguments and then those of the outer type is binding
them to the arguments of the outer instance. -/

namespace SchemaGraph
namespace Reference

variable {b b' : Bindings} {name : String} {r : Reference} {rs : List Reference}

/-- The name is one that a substitution may replace: it stands somewhere without arguments. -/
inductive HasLeaf (name : String) : Reference → Prop
  | here : HasLeaf name (.leaf name)
  | argument {head : String} {arguments : List Reference} {r : Reference} (hr : r ∈ arguments)
    (h : HasLeaf name r) : HasLeaf name (.named head arguments)
  | element {r : Reference} (h : HasLeaf name r) : HasLeaf name (.array r)

theorem hasLeaf_named {head : String} :
    (named head rs).HasLeaf name ↔ rs = [] ∧ head = name ∨ ∃ r ∈ rs, r.HasLeaf name := by
  constructor
  · intro h
    cases h with
    | here => exact .inl ⟨rfl, rfl⟩
    | argument hr h => exact .inr ⟨_, hr, h⟩
  · rintro (⟨rfl, rfl⟩ | ⟨r, hr, h⟩)
    · exact .here
    · exact .argument hr h

theorem substitute_congr (h : ∀ name, r.HasLeaf name → b name = b' name) :
    r.substitute b = r.substitute b' := by
  induction r with
  | named name rs ih =>
    by_cases hrs : rs = []
    · subst hrs
      rw [substitute_leaf, substitute_leaf, h name .here]
    · have hargs : ∀ r ∈ rs, r.substitute b = r.substitute b' :=
        fun r hr => ih r hr fun name hname => h name (.argument hr hname)
      rw [substitute_named b name hrs, substitute_named b' name hrs, List.map_congr_left hargs]
  | array element ih =>
    rw [substitute, substitute, ih fun name hname => h name (.element hname)]

/-! ## Composition -/

/-- The second bindings act on what the first bind a name to, and bind the names that the first
leave. -/
def Bindings.comp (b b' : Bindings) : Bindings := fun name =>
  match b name with
  | some r => some (r.substitute b')
  | none => b' name

theorem substitute_leaf_comp (b b' : Bindings) (name : String) :
    ((leaf name).substitute b).substitute b' = (leaf name).substitute (b.comp b') := by
  rw [substitute_leaf, substitute_leaf, Bindings.comp]
  cases b name with
  | none => rw [Option.getD_none, substitute_leaf]
  | some r => rw [Option.getD_some, Option.getD_some]

theorem substitute_substitute (b b' : Bindings) (r : Reference) :
    (r.substitute b).substitute b' = r.substitute (b.comp b') := by
  induction r with
  | named name rs ih =>
    by_cases hrs : rs = []
    · subst hrs
      exact substitute_leaf_comp b b' name
    · -- a node with arguments has as many of them afterwards, so it is none that is replaced
      have hmap : rs.map (substitute b) ≠ [] := by simpa using hrs
      have hargs : (rs.map (substitute b)).map (substitute b') = rs.map (substitute (b.comp b')) :=
        List.map_map.trans (List.map_congr_left ih)
      rw [substitute_named b name hrs, substitute_named b' name hmap,
        substitute_named (b.comp b') name hrs, hargs]
  | array element ih => rw [substitute, substitute, substitute, ih]

/-! ## Parameters -/

theorem Bindings.ofLists_map (f : Reference → Reference) (parameters : List String)
    (rs : List Reference) (name : String) :
    ofLists parameters (rs.map f) name = (ofLists parameters rs name).map f := by
  induction parameters generalizing rs with
  | nil => rfl
  | cons parameter parameters ih =>
    cases rs with
    | nil => rfl
    | cons r rs =>
      simp only [List.map_cons, ofLists, ih, Option.map_or]
      split <;> rfl

theorem Bindings.isSome_ofLists {parameters : List String} (hl : parameters.length = rs.length)
    (h : name ∈ parameters) : (ofLists parameters rs name).isSome := by
  induction parameters generalizing rs with
  | nil => cases h
  | cons parameter parameters ih =>
    cases rs with
    | nil => cases hl
    | cons r rs =>
      simp only [ofLists, Option.isSome_or, Bool.or_eq_true]
      rcases List.mem_cons.mp h with rfl | h
      · exact .inr (by rw [if_pos rfl, Option.isSome_some])
      · exact .inl (ih (Nat.succ.inj hl) h)

end Reference

open Reference (Bindings substitute)

variable {d : Descriptor} {arguments : List Reference} {b b' : Bindings}

theorem Descriptor.bind_eq_ok :
    d.bind arguments = .ok b ↔
      d.parameters.length = arguments.length ∧ b = .ofLists d.parameters arguments := by
  rw [bind]
  split
  · next h => rw [Except.ok.injEq, eq_comm, and_iff_right h]
  · next h => exact iff_of_false (by simp) fun hb => h hb.1

/-- The parameters of a type are bound to arguments with a substitution in them. -/
theorem Descriptor.bind_map (h : d.bind arguments = .ok b) (b' : Bindings) :
    d.bind (arguments.map (substitute b')) = .ok fun name => (b name).map (substitute b') := by
  obtain ⟨hl, rfl⟩ := bind_eq_ok.mp h
  refine bind_eq_ok.mpr ⟨by rw [hl, List.length_map], funext fun name => ?_⟩
  rw [Bindings.ofLists_map]

/-- The bindings of the composed arguments act as both in turn, if the outer ones bind nothing else
in the reference. -/
theorem Descriptor.substitute_bind (h : d.bind arguments = .ok b) {r : Reference}
    (hr : ∀ name, r.HasLeaf name → name ∈ d.parameters ∨ b' name = none) :
    (r.substitute b).substitute b' = r.substitute fun name => (b name).map (substitute b') := by
  obtain ⟨hl, rfl⟩ := bind_eq_ok.mp h
  rw [Reference.substitute_substitute]
  refine Reference.substitute_congr fun name hname => ?_
  rw [Bindings.comp]
  cases hb : Bindings.ofLists d.parameters arguments name with
  | some r => rfl
  | none =>
    rcases hr name hname with hmem | hnone
    · have hsome := Bindings.isSome_ofLists hl hmem
      rw [hb] at hsome
      cases hsome
    · exact hnone

namespace Reference

/-- Substitution puts what a name is bound to in the place of its leaves and of nothing else: a node
with arguments keeps its name and their number. Two substitutions in turn are the one that binds a
name to what the first binds it to, with the second substituted there, and a name that the first
leaves to what the second binds it to. So a generic type within another is instantiated in one step:
the outer bindings may be put into its arguments beforehand, if all that they bind in the reference
are its own parameters. -/
theorem substitute_composes :
    (∀ (b : Bindings) (name : String) (rs : List Reference),
      (named name rs).substitute b =
        if rs = [] then (b name).getD (leaf name) else named name (rs.map (substitute b))) ∧
    (∀ (b : Bindings) (r : Reference), (array r).substitute b = array (r.substitute b)) ∧
    (∀ (r : Reference) (b b' : Bindings),
      (r.substitute b).substitute b' = r.substitute (b.comp b')) ∧
    ∀ (d : Descriptor) (arguments : List Reference) (b b' : Bindings),
      d.bind arguments = .ok b →
      ∃ b₃, d.bind (arguments.map (substitute b')) = .ok b₃ ∧
        (∀ name, b₃ name = (b name).map (substitute b')) ∧
        ∀ r : Reference, (∀ name, r.HasLeaf name → name ∈ d.parameters ∨ b' name = none) →
          (r.substitute b).substitute b' = r.substitute b₃ := by
  refine ⟨fun b name rs => ?_, fun b r => by rw [substitute],
    fun r b b' => substitute_substitute b b' r, fun d arguments b b' h => ?_⟩
  · split
    · next hrs => rw [hrs, ← substitute_leaf]
    · next hrs => exact substitute_named b name hrs
  · refine ⟨_, d.bind_map h b', fun name => rfl, fun r hr => ?_⟩
    exact Descriptor.substitute_bind h hr

/-- A page of lists of the parameter of another type, whose items are named like the parameter of
the page at a node with arguments too. -/
theorem substitute_composes_page :
    let d : Descriptor := ⟨"Page`1", ["T"], .object []⟩
    let outer : Bindings := .ofLists ["U"] [.leaf "Int32"]
    let r : Reference := .named "Pair`2" [.leaf "T", .named "T" [.leaf "T"]]
    ∃ b b₃, d.bind [.named "List`1" [.leaf "U"]] = .ok b ∧
      d.bind [.named "List`1" [.leaf "Int32"]] = .ok b₃ ∧
      (r.substitute b).substitute outer = r.substitute (b.comp outer) ∧
      (r.substitute b).substitute outer = r.substitute b₃ := by
  intro d outer r
  have hb : d.bind [.named "List`1" [.leaf "U"]] =
      .ok (.ofLists ["T"] [.named "List`1" [.leaf "U"]]) := rfl
  have hr : ∀ name, r.HasLeaf name → name ∈ d.parameters ∨ outer name = none := by
    intro name h
    obtain rfl : "T" = name := by simpa [r, hasLeaf_named] using h
    exact .inl List.mem_cons_self
  obtain ⟨-, -, hcomp, hbind⟩ := substitute_composes
  obtain ⟨b₃, hb₃, -, hinstance⟩ := hbind d _ _ outer hb
  exact ⟨_, b₃, hb, hb₃, hcomp _ _ _, hinstance r hr⟩

end Reference
end SchemaGraph
