import SchemaGraph.Proofs.Catalog.Convention
import SchemaGraph.Proofs.Compile.Alike

/-! # Arities agree

A compilation fails for lack of depth, or for a reference on the way that has no plan
(`node_error`). Such a reference holds a name that is not resolved, or it gives a type another
number of arguments than the type has parameters. The latter needs a full name against convention: a
token says how many arguments it takes by its suffix, its name is found by this suffix, and in a
conventional full name the same suffix says how many parameters there are. -/

namespace SchemaGraph

variable {c : Catalog} {d : Descriptor} {P : Reference → Prop} {limit n : Nat} {name : String}
  {r : Reference} {rs : List Reference} {p : Plan} {g g' : Registry} {e : Error}
  {tokens : List String}

/-- The error is of a name that is not resolved. -/
def Error.IsUnresolved (e : Error) : Prop := ∃ written cause, e = .unresolved written cause

/-! ## Where compilations fail -/

namespace Compile

variable {α β : Type}

theorem andThen_eq_error {o : Outcome α} {f : α → Registry → Outcome β} :
    andThen o f = (.error e, g') ↔
      o = (.error e, g') ∨ ∃ a g, o = (.ok a, g) ∧ f a g = (.error e, g') := by
  obtain ⟨x | a, g⟩ := o <;> simp

section

variable {node : Reference → Registry → Outcome Schema}

/-- References that are compiled in turn fail for one of them. -/
theorem each_error (h : each node rs g = (.error e, g')) :
    ∃ r ∈ rs, ∃ g, node r g = (.error e, g') := by
  induction rs generalizing g with
  | nil => cases h
  | cons r rs ih =>
    rcases andThen_eq_error.mp h with h | ⟨s, g₁, -, h⟩
    · exact ⟨r, List.mem_cons_self, g, h⟩
    · rcases andThen_eq_error.mp h with h | ⟨ss, g₂, -, h⟩
      · obtain ⟨q, hq, hnode⟩ := ih h
        exact ⟨q, List.mem_cons_of_mem r hq, hnode⟩
      · cases h

/-- A plan fails for one of the references that it leaves to be compiled. -/
theorem ofPlan_error (h : ofPlan node p g = (.error e, g')) :
    ∃ r ∈ p.references, ∃ g, node r g = (.error e, g') := by
  cases p with
  | inline i => cases h
  | layer l inner =>
    rcases andThen_eq_error.mp h with h | ⟨s, g₁, -, h⟩
    · exact ⟨inner, List.mem_singleton_self inner, g, h⟩
    · cases h
  | component key ps rs =>
    rw [ofPlan] at h
    split at h
    · cases h
    · rcases andThen_eq_error.mp h with h | ⟨ss, g₁, -, h⟩
      · exact each_error h
      · cases h

end

/-- A compilation fails for a reference without a plan, or for lack of depth. -/
theorem node_error (hP : c.Preserves P) (hr : P r) (h : node c limit n r g = (.error e, g')) :
    (∃ q, P q ∧ c.plan q = .error e) ∨ ∃ written, e = .recursionLimit written limit := by
  induction n generalizing r g with
  | zero =>
    cases h
    exact .inr ⟨_, rfl⟩
  | succ n ih =>
    rw [node_succ] at h
    split at h
    · next he =>
      cases h
      exact .inl ⟨r, hr, he⟩
    · next p hp =>
      obtain ⟨q, hq, g₁, hn⟩ := ofPlan_error h
      exact ih (hP hp hr q hq) hn

end Compile

namespace Catalog

theorem compile_failure (hP : c.Preserves P) (hr : P r) (h : (c.compile r g).1 = .error e) :
    (∃ q, P q ∧ c.plan q = .error e) ∨
      ∃ written, e = .recursionLimit written maxNestingDepth := by
  rw [compile, compileWithin_fst] at h
  rcases hn : Compile.node c maxNestingDepth maxNestingDepth r g with ⟨x, g'⟩
  rw [hn] at h
  cases h
  exact Compile.node_error hP hr hn

theorem compileTokens_failure (h : (c.compileTokens tokens g).1 = .error e) :
    (∃ cause, e = .decode cause) ∨
      ∃ r, Reference.decode tokens = .ok (some r) ∧ (c.compile r g).1 = .error e := by
  rw [compileTokens] at h
  split at h
  · cases h
    exact .inl ⟨_, rfl⟩
  · cases h
  · next r hr =>
    refine .inr ⟨r, hr, ?_⟩
    split at h
    · cases h
    · next hc =>
      rw [hc]
      cases h
      rfl

/-! ## References without a plan -/

theorem resolveIn_isUnresolved (c : Catalog) (name : String) (r r' : Reference) :
    Agree (fun e _ => e.IsUnresolved) Eq (c.resolveIn r name) (c.resolveIn r' name) := by
  rw [resolveIn, resolveIn]
  split
  · exact .ok rfl
  · exact .error ⟨_, _, rfl⟩

/-- An identity is missing for a name that is not resolved. -/
theorem identityOf_error (h : c.identityOf d rs = .error e) : e.IsUnresolved := by
  have hself (r : Reference) :
      Agree (fun e _ => e.IsUnresolved) Eq (c.identity r) (c.identity r) := by
    apply identity_agree _ (.refl (fun name : String => Eq.refl name) r)
    intro n m hnm r r'
    rw [hnm]
    exact c.resolveIn_isUnresolved m r r'
  have harguments := identityArguments_agree (List.forall₂_same.mpr fun r (_ : r ∈ rs) => hself r)
  rw [identityOf] at h
  cases ht : c.identityArguments rs with
  | ok t => rw [ht] at h; cases h
  | error e' =>
    rw [ht] at h harguments
    cases h
    cases harguments with
    | error he => exact he

theorem planOf_error {b : Reference.Bindings} (h : c.planOf d rs b = .error e) :
    c.identityOf d rs = .error e := by
  rw [planOf] at h
  split at h
  · cases h
  · cases h
  · cases h
  · cases h
  · cases hs : c.identityOf d rs with
    | ok s => rw [hs] at h; cases h
    | error e' => rw [hs] at h; cases h; rfl

/-- A reference has no plan for a name that is not resolved, or because its type takes another
number of arguments. -/
theorem plan_error (h : c.plan r = .error e) :
    e.IsUnresolved ∨ ∃ name rs d, r = .named name rs ∧ c.resolve name = .ok d ∧
      d.parameters.length ≠ rs.length := by
  cases r with
  | array element => cases h
  | named name rs =>
    rw [plan, resolveIn] at h
    cases hd : c.resolve name with
    | error cause =>
      rw [hd] at h
      cases h
      exact .inl ⟨_, cause, rfl⟩
    | ok d =>
      rw [hd] at h
      change Except.bind (d.bind rs) (c.planOf d rs) = _ at h
      rw [Descriptor.bind] at h
      split at h
      · exact .inl (identityOf_error (planOf_error h))
      · next hlength => exact .inr ⟨name, rs, d, rfl, hd, hlength⟩

/-! ## Conventional names -/

/-- A name stands for a type with as many parameters as the name takes arguments. -/
theorem length_parameters_of_resolve (hc : c.Lawful) (hconv : c.Conventional)
    (hname : Token.IsName name n) (hd : c.resolve name = .ok d) : d.parameters.length = n := by
  obtain ⟨w, base, s, hfound⟩ := hc.found hname hd
  exact (hconv d hfound.mem).length_parameters hfound

theorem plan_error_of_spelled (hc : c.Lawful) (hconv : c.Conventional) (hr : r.Spelled)
    (h : c.plan r = .error e) : e.IsUnresolved := by
  rcases plan_error h with hunresolved | ⟨name, rs, d, rfl, hd, hlength⟩
  · exact hunresolved
  · cases hr with
    | named hname => exact absurd (length_parameters_of_resolve hc hconv hname hd) hlength

/-- Under conventional names the numbers of arguments in a token list are never wrong, nor are those
that come of them in the properties of other types, at any depth. -/
theorem compileTokens_ne_arityMismatch (hc : c.Loaded) (hconv : c.Conventional)
    (tokens : List String) (g : Registry) (name : String) (expected found : Nat) :
    (c.compileTokens tokens g).1 ≠ .error (.arityMismatch name expected found) := by
  intro h
  rcases compileTokens_failure h with ⟨cause, he⟩ | ⟨r, hr, hcompile⟩
  · cases he
  · have hspelled : r.Spelled := Reference.spelled_of_decode hr
    rcases compile_failure hc.spelled.preserves hspelled hcompile with ⟨q, hq, hp⟩ | ⟨written, he⟩
    · obtain ⟨written, cause, he⟩ := plan_error_of_spelled hc.reachable.lawful hconv hq hp
      cases he
    · cases he

/-- A generic type that holds itself, and a type nested in it. -/
def boxText : String :=
  "\x7b\"types\":[\x7b\"name\":\"Shop.Box`1\",\"generic_parameters\":[\"T\"]," ++
  "\"kind\":\"object\",\"properties\":[" ++
  "\x7b\"name\":\"inner\",\"type\":[\"Box`1\",\"T\"]\x7d]\x7d," ++
  "\x7b\"name\":\"Shop.Box+Lid\",\"kind\":\"object\"\x7d]\x7d"

/-- A box of something unknown: the list is rejected, but not for a number of arguments. -/
theorem compileTokens_ne_arityMismatch_boxText :
    let c := (empty.load .json "boxes" boxText).2
    let answer := (c.compileTokens ["Box`1", "User"] .empty).1
    c.Conventional ∧ answer.isOk = false ∧
      ∀ name expected found, answer ≠ .error (.arityMismatch name expected found) := by
  obtain ⟨hconv, hfails⟩ : (empty.load .json "boxes" boxText).2.Conventional ∧
      ((empty.load .json "boxes" boxText).2.compileTokens ["Box`1", "User"] .empty).1.isOk =
        false := by
    decide +kernel
  have hloaded : (empty.load .json "boxes" boxText).2.Loaded := .load .empty ..
  exact ⟨hconv, hfails, compileTokens_ne_arityMismatch hloaded hconv _ .empty⟩

/-- Against convention: the suffix says one, and there are no parameters. -/
example :
    let c : Catalog := ⟨[⟨"Box`1", [], .object []⟩], [], []⟩
    (c.compileTokens ["Box`1", "Box`1", "Box"] .empty).1 =
      .error (.arityMismatch "Box`1" 0 1) := by
  rfl

end Catalog
end SchemaGraph
