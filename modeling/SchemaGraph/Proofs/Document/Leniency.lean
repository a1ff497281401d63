import SchemaGraph.Document.References
import SchemaGraph.Proofs.Compile.Closure
import SchemaGraph.Proofs.Reference.Spelling

/-! # Lenient documents

A lenient document is the strict document of the references that resolve, with any string in the
place of the others. A call that fails leaves the registry as it was, so leaving out references
whose calls fail changes the answer of no other (`answered_of_drops`), and the document of a list
is told by the answers to it alone (`ofReferences_eq_ok`). -/

namespace SchemaGraph
namespace Document

variable {c : Catalog} {mode : Strictness} {info : Info} {g g' : Registry} {a : Answer}
  {references : List NamedReference} {nodes nodes' : Table Schema} {d : Json}
  {name field : String} {o : NamedReference × Answer} {os : List (NamedReference × Answer)}

/-! ## The answers to a list -/

/-- The calls that compile the references of a list. -/
def callsOf (references : List NamedReference) : List Call :=
  references.map fun r => .tokens r.tokens

/-- The references of a list with the answers that they get when they are compiled in turn. -/
def answered (c : Catalog) (references : List NamedReference) (g : Registry) :
    List (NamedReference × Answer) := references.zip (c.calls (callsOf references) g).1

/-- The registry that the references of a list leave. -/
def registryAfter (c : Catalog) (references : List NamedReference) (g : Registry) : Registry :=
  (c.calls (callsOf references) g).2

theorem answered_cons (c : Catalog) (r : NamedReference) (more : List NamedReference)
    (g : Registry) :
    answered c (r :: more) g =
      (r, (c.compileTokens r.tokens g).1) :: answered c more (c.compileTokens r.tokens g).2 := rfl

theorem registryAfter_cons (c : Catalog) (r : NamedReference) (more : List NamedReference)
    (g : Registry) :
    registryAfter c (r :: more) g = registryAfter c more (c.compileTokens r.tokens g).2 := rfl

theorem exists_compileTokens (h : o ∈ answered c references g) :
    ∃ g g', c.compileTokens o.1.tokens g = (o.2, g') := by
  induction references generalizing g with
  | nil => cases h
  | cons r more ih =>
    rw [answered_cons] at h
    rcases List.mem_cons.mp h with rfl | h
    · exact ⟨g, _, rfl⟩
    · exact ih h

/-- There is no node, and no failure either, exactly where there are no tokens. -/
theorem answer_eq_none_iff (h : o ∈ answered c references g) :
    o.2 = .ok none ↔ o.1.tokens = [] := by
  obtain ⟨g, g', hc⟩ := exists_compileTokens h
  constructor
  · intro ho
    rw [ho] at hc
    rcases Catalog.compileTokens_eq_ok.mp hc with ⟨hd, -, -⟩ | ⟨r, s, -, -, hs⟩
    · exact Reference.decode_eq_none.mp hd
    · cases hs
  · intro ht
    have hnone : c.compileTokens o.1.tokens g = (.ok none, g) :=
      Catalog.compileTokens_eq_ok.mpr (.inl ⟨Reference.decode_eq_none.mpr ht, rfl, rfl⟩)
    exact congrArg Prod.fst (hc.symm.trans hnone)

/-! ## References left out -/

/-- The second list is the first without some references whose calls failed. -/
inductive Drops : List (NamedReference × Answer) → List (NamedReference × Answer) → Prop
  | nil : Drops [] []
  | keep {os os' : List (NamedReference × Answer)} (o : NamedReference × Answer)
    (h : Drops os os') : Drops (o :: os) (o :: os')
  | drop {os os' : List (NamedReference × Answer)} (r : NamedReference) (e : Error)
    (h : Drops os os') : Drops ((r, .error e) :: os) os'

/-- Without references whose calls fail, wherever they stand, the others get the same answers and
leave the same registry. -/
theorem answered_of_drops (h : Drops (answered c references g) os) :
    answered c (os.map Prod.fst) g = os ∧
      registryAfter c (os.map Prod.fst) g = registryAfter c references g := by
  induction references generalizing g os with
  | nil => cases h; exact ⟨rfl, rfl⟩
  | cons r more ih =>
    rw [answered_cons] at h
    rw [registryAfter_cons]
    rcases hc : c.compileTokens r.tokens g with ⟨a, g'⟩
    rw [hc] at h
    cases h with
    | keep o h =>
      obtain ⟨hanswered, hregistry⟩ := ih h
      rw [List.map_cons, answered_cons, registryAfter_cons, hc]
      exact ⟨congrArg _ hanswered, hregistry⟩
    | drop r e h =>
      obtain rfl := Catalog.compileTokens_error hc
      exact ih h

theorem drops_filter {p : NamedReference × Answer → Bool}
    (hp : ∀ r x, p (r, .ok x) = true) (os : List (NamedReference × Answer)) :
    Drops os (os.filter p) := by
  induction os with
  | nil => exact .nil
  | cons o os ih =>
    rw [List.filter_cons]
    split
    · exact ih.keep o
    · next ho =>
      obtain ⟨r, e | x⟩ := o
      · exact ih.drop r e
      · exact absurd (hp r x) ho

/-! ## Nodes from answers -/

/-- The node under which a reference is documented, if it is. -/
def nodeFor (mode : Strictness) : Answer → Option Schema
  | .ok node => node
  | .error e => mode.substitute? e

/-- The answer does not end the compilation of a list. -/
def Strictness.Accepts (mode : Strictness) (a : Answer) : Prop :=
  ∀ e, a = .error e → (mode.substitute? e).isSome

/-- The nodes that are put in turn. -/
def entries (mode : Strictness) (os : List (NamedReference × Answer)) : Table Schema :=
  os.filterMap fun o => (nodeFor mode o.2).map (o.1.name, ·)

theorem entries_cons (mode : Strictness) (o : NamedReference × Answer)
    (os : List (NamedReference × Answer)) :
    entries mode (o :: os) = ((nodeFor mode o.2).map (o.1.name, ·)).toList ++ entries mode os := by
  rw [entries, List.filterMap_cons]
  cases nodeFor mode o.2 <;> rfl

/-- What a run makes of a list is told by the answers to it. -/
theorem compileAll_eq_ok :
    compileAll c mode references g nodes = .ok (g', nodes') ↔
      (∀ o ∈ answered c references g, mode.Accepts o.2) ∧ g' = registryAfter c references g ∧
        nodes' =
          (entries mode (answered c references g)).foldl (fun t e => t.put e.1 e.2) nodes := by
  induction references generalizing g nodes with
  | nil => simp [compileAll, answered, registryAfter, entries, callsOf, Catalog.calls, eq_comm]
  | cons r more ih =>
    rw [answered_cons, registryAfter_cons, entries_cons, List.forall_mem_cons, compileAll]
    rcases c.compileTokens r.tokens g with ⟨e | node, g₁⟩
    · cases hs : mode.substitute? e <;> simp [hs, ih, nodeFor, Strictness.Accepts]
    · cases node <;> simp [ih, nodeFor, Strictness.Accepts]

/-- The document of a list, as it is told by the answers to it. -/
theorem ofReferences_eq_ok :
    ofReferences c mode info references = .ok d ↔
      (∀ o ∈ answered c references .empty, mode.Accepts o.2) ∧
        d = ofFinished info (Registry.finished (registryAfter c references .empty).entries)
          (.ofList (entries mode (answered c references .empty))) := by
  have hclosed : (registryAfter c references .empty).Closed :=
    (Catalog.closed_calls c (callsOf references)).1
  have hbuild := build_eq hclosed.pendingKeys info
    (.ofList (entries mode (answered c references .empty)))
  rw [ofReferences]
  rcases hall : compileAll c mode references .empty [] with e | ⟨g, nodes⟩
  · refine ⟨fun h => (nomatch h), fun h => ?_⟩
    have hok : compileAll c mode references .empty [] = .ok (_, _) :=
      compileAll_eq_ok.mpr ⟨h.1, rfl, rfl⟩
    rw [hall] at hok
    cases hok
  · obtain ⟨haccepts, rfl, rfl⟩ := compileAll_eq_ok.mp hall
    rw [Table.ofList] at hbuild
    simp only [bind, Except.bind, hbuild, Except.ok.injEq, Table.ofList, eq_comm (a := d)]
    exact ⟨fun h => ⟨haccepts, h⟩, fun h => h.2⟩

/-! ## Fields of a document -/

theorem at?_ofFinished_field (info : Info) (t nodes nodes' : Table Schema)
    (hf : field ≠ referencesField) :
    (ofFinished info t nodes).at? [field] = (ofFinished info t nodes').at? [field] := by
  have hr : ∀ nodes : Table Schema, (ofFinished info t nodes).at? [field] =
      (ofFinished info t []).at? [field] := by
    intro nodes
    cases nodes with
    | nil => rfl
    | cons e nodes => simp [ofFinished, Json.ofFields, Json.at?, Table.get?, Ne.symm hf]
  rw [hr nodes, hr nodes']

theorem at?_ofFinished_reference (info : Info) (t nodes : Table Schema) (name : String) :
    (ofFinished info t nodes).at? [referencesField, name] =
      (nodes.get? name).map Schema.toJson := by
  rw [← Table.get?_mapValues]
  cases nodes with
  | nil => rfl
  | cons e nodes => simp [ofFinished, Json.ofFields, Json.at?, Table.get?, referencesField]

/-! ## The last answer to a name -/

/-- The answer to the last reference of a name that has tokens. -/
def lastAnswer? (os : List (NamedReference × Answer)) (name : String) : Option Answer :=
  (os.filter fun o => o.1.name = name ∧ o.1.tokens ≠ []).getLast?.map Prod.snd

theorem lastAnswer?_concat (os : List (NamedReference × Answer)) (o : NamedReference × Answer) :
    lastAnswer? (os ++ [o]) name =
      if o.1.name = name ∧ o.1.tokens ≠ [] then some o.2 else lastAnswer? os name := by
  rw [lastAnswer?, List.filter_append, List.filter_cons]
  split <;> simp_all [lastAnswer?]

/-- A name stands for the node of its last answer. -/
theorem get?_entries (hnode : ∀ o ∈ os, (nodeFor mode o.2).isSome ↔ o.1.tokens ≠ []) :
    Table.get? name (.ofList (entries mode os)) = (lastAnswer? os name).bind (nodeFor mode) := by
  rw [Table.get?_ofList]
  induction os using List.reverseRecOn with
  | nil => rfl
  | append_singleton os o ih =>
    have hos := ih fun o ho => hnode o (List.mem_append_left _ ho)
    have ho := hnode o (by simp)
    have hentries : entries mode (os ++ [o]) =
        entries mode os ++ ((nodeFor mode o.2).map (o.1.name, ·)).toList := by
      rw [entries, List.filterMap_append, ← entries, ← entries, entries_cons]
      simp [entries]
    rw [hentries, List.reverse_append, Table.get?_append, hos, lastAnswer?_concat]
    cases hs : nodeFor mode o.2 with
    | none =>
      rw [hs] at ho
      simp_all [Table.get?]
    | some s =>
      by_cases hname : o.1.name = name
      · simp_all [Table.get?]
      · simp [Table.get?, hname]

/-- Leaving out answers other than the last of a name keeps the last. -/
theorem lastAnswer?_filter (p : Answer → Bool)
    (hp : ∀ a, lastAnswer? os name = some a → p a = true) :
    lastAnswer? (os.filter fun o => p o.2) name = lastAnswer? os name := by
  induction os using List.reverseRecOn with
  | nil => rfl
  | append_singleton os o ih =>
    rw [lastAnswer?_concat] at hp ⊢
    rw [List.filter_append, List.filter_cons, List.filter_nil]
    split at hp
    · next ho => rw [if_pos ho, if_pos (hp _ rfl), lastAnswer?_concat, if_pos ho]
    · next ho =>
      rw [if_neg ho, ← ih hp]
      split
      · rw [lastAnswer?_concat, if_neg ho]
      · rw [List.append_nil]

theorem isSome_nodeFor_iff (ho : o ∈ answered c references g) (ha : mode.Accepts o.2) :
    (nodeFor mode o.2).isSome ↔ o.1.tokens ≠ [] := by
  rw [Ne, ← answer_eq_none_iff ho]
  rcases o with ⟨r, e | node⟩
  · simpa [nodeFor] using ha e rfl
  · simp [nodeFor, Option.isSome_iff_ne_none]

/-- What a document says of a name is told by the last answer to it. -/
theorem at?_ofReferences (h : ofReferences c mode info references = .ok d) (name : String) :
    d.at? [referencesField, name] =
      ((lastAnswer? (answered c references .empty) name).bind (nodeFor mode)).map
        Schema.toJson := by
  obtain ⟨haccepts, rfl⟩ := ofReferences_eq_ok.mp h
  rw [at?_ofFinished_reference, get?_entries fun o ho => isSome_nodeFor_iff ho (haccepts o ho)]

/-! ## Lenient and strict -/

/-- The answer is that a type does not resolve. -/
def isUnresolved : Answer → Bool
  | .error (.unresolved ..) => true
  | _ => false

theorem nodeFor_lenient (a : Answer) :
    nodeFor .lenient a = if isUnresolved a then some .opaqueString else nodeFor .strict a := by
  rcases a with e | node
  · cases e <;> rfl
  · rfl

theorem Strictness.Accepts.strict (ha : lenient.Accepts a) (hu : isUnresolved a = false) :
    strict.Accepts a := by
  rintro e rfl
  have he : (nodeFor lenient (.error e)).isSome := ha e rfl
  rwa [nodeFor_lenient, hu] at he

/-- What a lenient list makes of a name: any string if the last answer to it is that a type does
not resolve, else what a strict list makes of it without such answers. -/
theorem lastNode_lenient (os : List (NamedReference × Answer)) (name : String) :
    (lastAnswer? os name).bind (nodeFor .lenient) =
      if (lastAnswer? os name).any isUnresolved then some .opaqueString
      else (lastAnswer? (os.filter fun o => !isUnresolved o.2) name).bind (nodeFor .strict) := by
  split
  · next hu =>
    obtain ⟨a, hlast, ha⟩ := (Option.any_eq_true ..).mp hu
    rw [hlast, Option.bind_some, nodeFor_lenient, if_pos ha]
  · next hu =>
    have hresolves : ∀ a, lastAnswer? os name = some a → isUnresolved a = false := by
      intro a ha
      simpa [ha] using hu
    have hlast : lastAnswer? (os.filter fun o => !isUnresolved o.2) name = lastAnswer? os name :=
      lastAnswer?_filter (!isUnresolved ·) fun a ha => by simpa using hresolves a ha
    rw [hlast]
    refine Option.bind_congr fun a ha => ?_
    rw [nodeFor_lenient, hresolves a ha, if_neg Bool.false_ne_true]

/-- The references of a list, the ones to types that do not resolve left out. -/
def resolving (c : Catalog) (references : List NamedReference) : List NamedReference :=
  ((answered c references .empty).filter fun o => !isUnresolved o.2).map Prod.fst

theorem answered_resolving (c : Catalog) (references : List NamedReference) :
    answered c (resolving c references) .empty =
        (answered c references .empty).filter (fun o => !isUnresolved o.2) ∧
      registryAfter c (resolving c references) .empty = registryAfter c references .empty :=
  answered_of_drops (drops_filter (fun _ _ => rfl) _)

/-- A lenient document is the strict one of the references that resolve, except for the names
whose last reference does not resolve: these stand for any string. A reference that fails, wherever
it stands in the list, changes neither the registry nor the answer to another. -/
theorem ofReferences_strict_of_lenient (h : ofReferences c .lenient info references = .ok d) :
    (∃ d', ofReferences c .strict info (resolving c references) = .ok d' ∧
      (∀ field, field ≠ referencesField → d'.at? [field] = d.at? [field]) ∧
      ∀ name, d.at? [referencesField, name] =
        if (lastAnswer? (answered c references .empty) name).any isUnresolved
        then some (.obj [("type", .str "string")])
        else d'.at? [referencesField, name]) ∧
    ∀ os, Drops (answered c references .empty) os →
      answered c (os.map Prod.fst) .empty = os ∧
        registryAfter c (os.map Prod.fst) .empty = registryAfter c references .empty := by
  refine ⟨?_, fun os => answered_of_drops⟩
  obtain ⟨hanswered, hregistry⟩ := answered_resolving c references
  obtain ⟨haccepts, hd⟩ := ofReferences_eq_ok.mp h
  have hstrict : ∀ o ∈ answered c (resolving c references) .empty,
      Strictness.strict.Accepts o.2 := by
    rw [hanswered]
    intro o ho
    obtain ⟨ho, hu⟩ := List.mem_filter.mp ho
    exact (haccepts o ho).strict (by simpa using hu)
  obtain ⟨d', h'⟩ : ∃ d', ofReferences c .strict info (resolving c references) = .ok d' :=
    ⟨_, ofReferences_eq_ok.mpr ⟨hstrict, rfl⟩⟩
  have hd' := (ofReferences_eq_ok.mp h').2
  refine ⟨d', h', fun field hf => ?_, fun name => ?_⟩
  · rw [hd, hd', hregistry]
    exact at?_ofFinished_field _ _ _ _ hf
  · rw [at?_ofReferences h, at?_ofReferences h', hanswered, lastNode_lenient]
    split <;> rfl

/-- Types of which one has a property of an unknown type. -/
def petTypes : Catalog where
  types := [
    ⟨"Pet", [], .object [{ name := "Friend", type := .leaf "Pet" }]⟩,
    ⟨"Lost", [], .object [
      { name := "Pet", type := .leaf "Pet" }, { name := "Ghost", type := .leaf "Ghost" }]⟩]
  aliases := []
  sources := []

def petReferences : List NamedReference :=
  [⟨"a", ["Lost"]⟩, ⟨"a", ["Pet"]⟩, ⟨"b", ["Pet[]"]⟩, ⟨"b", ["Lost"]⟩, ⟨"b", []⟩]

/-- One name is last given to a type that resolves, another to one that fails when a component has
been added. -/
theorem ofReferences_strict_of_lenient_petTypes :
    ∃ d d', ofReferences petTypes .lenient ⟨"Pets", "1"⟩ petReferences = .ok d ∧
      ofReferences petTypes .strict ⟨"Pets", "1"⟩ (resolving petTypes petReferences) = .ok d' ∧
      d'.at? ["components"] = d.at? ["components"] ∧
      d.at? [referencesField, "a"] = d'.at? [referencesField, "a"] ∧
      d.at? [referencesField, "b"] = some (.obj [("type", .str "string")]) := by
  have hok : (ofReferences petTypes .lenient ⟨"Pets", "1"⟩ petReferences).isOk = true := by
    decide +kernel
  have ha : (lastAnswer? (answered petTypes petReferences .empty) "a").any isUnresolved =
      false := by decide +kernel
  have hb : (lastAnswer? (answered petTypes petReferences .empty) "b").any isUnresolved =
      true := by decide +kernel
  rcases h : ofReferences petTypes .lenient ⟨"Pets", "1"⟩ petReferences with e | d
  · rw [h] at hok
    cases hok
  · obtain ⟨⟨d', hd', hfields, hnames⟩, -⟩ := ofReferences_strict_of_lenient h
    refine ⟨d, d', rfl, hd', hfields _ (by decide), ?_, ?_⟩
    · rw [hnames, ha, if_neg Bool.false_ne_true]
    · rw [hnames, hb, if_pos rfl]

end Document
end SchemaGraph
