import SchemaGraph.Proofs.Catalog.Texts
import SchemaGraph.Proofs.Compile.Keys

/-! # Alike references

Two references are alike if they have one shape and the names at equal positions are answered
alike by the catalog. Compilation cannot tell alike references apart: their plans are the same,
again up to alike references, and so is what they denote. Where the one has no plan the other has
none for the same error, in which only the reference as written is another. -/

namespace SchemaGraph

/-- The references have one shape, and their names at equal positions resolve alike. -/
abbrev Catalog.Alike (c : Catalog) : Reference → Reference → Prop :=
  Reference.Rel fun n m => c.resolve n = c.resolve m

/-- The plans differ in alike references only. -/
inductive Plan.Alike (c : Catalog) : Plan → Plan → Prop
  | inline (i : Inline) : Plan.Alike c (.inline i) (.inline i)
  | layer (l : Layer) {r r' : Reference} (h : c.Alike r r') :
    Plan.Alike c (.layer l r) (.layer l r')
  | component (key : String) (ps : List Property) {rs rs' : List Reference}
    (h : List.Forall₂ c.Alike rs rs') :
    Plan.Alike c (.component key ps rs) (.component key ps rs')

/-- The errors of a compilation are the same, but for the reference as written. -/
inductive Error.Alike : Error → Error → Prop
  | unresolved (written written' : String) (cause : ResolveError) :
    Error.Alike (.unresolved written cause) (.unresolved written' cause)
  | arityMismatch (name : String) (expected found : Nat) :
    Error.Alike (.arityMismatch name expected found) (.arityMismatch name expected found)
  | recursionLimit (written written' : String) (limit : Nat) :
    Error.Alike (.recursionLimit written limit) (.recursionLimit written' limit)

/-- The errors are alike and do not come of the depth. -/
def Error.PlanAlike (e e' : Error) : Prop :=
  e.Alike e' ∧ ∀ written limit, e ≠ .recursionLimit written limit

/-! ## Computations that agree -/

/-- Both computations fail, with related errors, or both succeed, with related results. -/
inductive Agree {α β : Type} (E : Error → Error → Prop) (R : α → β → Prop) :
    Except Error α → Except Error β → Prop
  | ok {a : α} {b : β} (h : R a b) : Agree E R (.ok a) (.ok b)
  | error {e e' : Error} (h : E e e') : Agree E R (.error e) (.error e')

namespace Agree

variable {α α' β β' : Type} {E : Error → Error → Prop} {R : α → α' → Prop} {S : β → β' → Prop}
  {x : Except Error α} {x' : Except Error α'} {a : α}

theorem bind {f : α → Except Error β} {f' : α' → Except Error β'} (hx : Agree E R x x')
    (hf : ∀ {a a'}, R a a' → Agree E S (f a) (f' a')) : Agree E S (x >>= f) (x' >>= f') := by
  cases hx with
  | ok h => exact hf h
  | error h => exact .error h

theorem map {f : α → β} {f' : α' → β'} (hx : Agree E R x x')
    (hf : ∀ {a a'}, R a a' → S (f a) (f' a')) : Agree E S (x.map f) (x'.map f') := by
  cases hx with
  | ok h => exact .ok (hf h)
  | error h => exact .error h

theorem of_ok (h : Agree E R (.ok a) x') : ∃ a', x' = .ok a' ∧ R a a' := by
  cases h with
  | ok h => exact ⟨_, rfl, h⟩

/-- If no errors are related, both computations succeed. -/
theorem exists_ok (h : Agree (fun _ _ => False) R x x') :
    ∃ a a', x = .ok a ∧ x' = .ok a' ∧ R a a' := by
  cases h with
  | ok h => exact ⟨_, _, rfl, rfl, h⟩
  | error h => exact h.elim

end Agree

namespace Catalog

open Reference (Rel)

variable {c : Catalog} {d : Descriptor} {n m : String} {r r' : Reference}
  {rs rs' : List Reference} {b b' : Reference.Bindings} {p : Plan}

theorem alike_of_sameType (h : Rel c.SameType r r') : c.Alike r r' := by
  refine h.mono fun n m => ?_
  rintro ⟨d, hn, hm⟩
  rw [hn, hm]

/-! ## Identities -/

section

variable {E : Error → Error → Prop} {R : String → String → Prop}

theorem identityMore_agree
    (h : List.Forall₂ (fun r r' => Agree E Eq (c.identity r) (c.identity r')) rs rs') :
    Agree E Eq (c.identityMore rs) (c.identityMore rs') := by
  induction h with
  | nil => exact .ok rfl
  | cons hr _ ih =>
    rw [identityMore, identityMore]
    exact hr.bind fun hs => ih.bind fun ht => .ok (by rw [hs, ht])

theorem identityArguments_agree
    (h : List.Forall₂ (fun r r' => Agree E Eq (c.identity r) (c.identity r')) rs rs') :
    Agree E Eq (c.identityArguments rs) (c.identityArguments rs') := by
  cases h with
  | nil => exact .ok rfl
  | cons hr hrs =>
    rw [identityArguments, identityArguments]
    exact hr.bind fun hs => (identityMore_agree hrs).bind fun ht => .ok (by rw [hs, ht])

/-- Identities agree if single names do. -/
theorem identity_agree
    (hR : ∀ {n m}, R n m → ∀ r r', Agree E Eq (c.resolveIn r n) (c.resolveIn r' m))
    (h : Rel R r r') : Agree E Eq (c.identity r) (c.identity r') := by
  induction h with
  | named hname hlength _ ih =>
    have harguments := identityArguments_agree (List.forall₂_iff_zip.mpr ⟨hlength, ih⟩)
    rw [identity, identity]
    exact (hR hname _ _).bind fun hd => harguments.bind fun ht => .ok (by rw [hd, ht])
  | array _ ih =>
    rw [identity, identity]
    exact ih.bind fun hs => .ok (by rw [hs])

end

theorem resolveIn_agree (h : c.resolve n = c.resolve m) (r r' : Reference) :
    Agree Error.PlanAlike Eq (c.resolveIn r n) (c.resolveIn r' m) := by
  rw [resolveIn, resolveIn, h]
  split
  · exact .ok rfl
  · exact .error ⟨.unresolved _ _ _, by simp⟩

theorem identityOf_agree (h : List.Forall₂ c.Alike rs rs') :
    Agree Error.PlanAlike Eq (c.identityOf d rs) (c.identityOf d rs') := by
  have harguments := identityArguments_agree (h.imp fun _ _ => identity_agree resolveIn_agree)
  rw [identityOf, identityOf]
  exact harguments.bind fun ht => .ok (by rw [ht])

/-- References of the same types have an identity, and it is the same. -/
theorem identity_of_sameType (h : Rel c.SameType r r') :
    ∃ s, c.identity r = .ok s ∧ c.identity r' = .ok s := by
  have hresolve : ∀ {n m}, c.SameType n m → ∀ r r',
      Agree (fun _ _ => False) Eq (c.resolveIn r n) (c.resolveIn r' m) := by
    intro n m ⟨d, hn, hm⟩ r r'
    rw [resolveIn_eq_ok.mpr hn, resolveIn_eq_ok.mpr hm]
    exact .ok rfl
  obtain ⟨s, _, hs, hs', rfl⟩ := (identity_agree hresolve h).exists_ok
  exact ⟨s, hs, hs'⟩

/-! ## Plans -/

theorem bind_agree (h : List.Forall₂ c.Alike rs rs') :
    Agree Error.PlanAlike (fun b b' => ∀ name, Option.Rel c.Alike (b name) (b' name))
      (d.bind rs) (d.bind rs') := by
  rw [Descriptor.bind, Descriptor.bind, h.length_eq]
  split
  · exact .ok (Reference.Bindings.ofLists_rel h)
  · exact .error ⟨.arityMismatch _ _ _, by simp⟩

theorem planOf_agree (h : List.Forall₂ c.Alike rs rs')
    (hb : ∀ name, Option.Rel c.Alike (b name) (b' name)) :
    Agree Error.PlanAlike (Plan.Alike c) (c.planOf d rs b) (c.planOf d rs' b') := by
  have hsubst (r : Reference) : c.Alike (r.substitute b) (r.substitute b') :=
    Rel.substitute (R := fun n m => c.resolve n = c.resolve m) (fun _ => rfl) hb r
  rw [planOf, planOf]
  cases d.kind with
  | primitive => exact .ok (.inline _)
  | enumeration => exact .ok (.inline _)
  | dictionary => exact .ok (.layer _ (hsubst _))
  | enumerable => exact .ok (.layer _ (hsubst _))
  | object ps =>
    have hrs : List.Forall₂ c.Alike (ps.map fun p => p.type.substitute b)
        (ps.map fun p => p.type.substitute b') := by
      rw [List.forall₂_map_left_iff, List.forall₂_map_right_iff]
      exact List.forall₂_same.mpr fun p _ => hsubst p.type
    exact (identityOf_agree h).map fun hs => by rw [hs]; exact .component _ ps hrs

theorem plan_agree (h : c.Alike r r') :
    Agree Error.PlanAlike (Plan.Alike c) (c.plan r) (c.plan r') := by
  cases h with
  | array h => exact .ok (.layer _ h)
  | @named _ _ rs rs' hname hlength hzip =>
    have hrs : List.Forall₂ c.Alike rs rs' := List.forall₂_iff_zip.mpr ⟨hlength, hzip⟩
    rw [plan, plan]
    refine (resolveIn_agree hname _ _).bind fun hd => ?_
    subst hd
    exact (bind_agree hrs).bind fun hb => planOf_agree hrs hb

/-- Alike references are planned alike. -/
theorem plan_alike (h : c.Alike r r') (hp : c.plan r = .ok p) :
    ∃ p', c.plan r' = .ok p' ∧ p.Alike c p' := by
  have hagree := plan_agree h
  rw [hp] at hagree
  exact hagree.of_ok

/-- Plans know nothing of the depth. -/
theorem plan_ne_recursionLimit {written : String} {limit : Nat} :
    c.plan r ≠ .error (.recursionLimit written limit) := by
  intro h
  have hself : c.Alike r r := Rel.refl (fun n => Eq.refl (c.resolve n)) r
  have hagree := plan_agree hself
  rw [h] at hagree
  cases hagree with
  | error h => exact h.2 written limit rfl

end Catalog

theorem Denotes.alike {c : Catalog} {r r' : Reference} {s : Schema} (h : c.Alike r r')
    (hs : Denotes c r s) : Denotes c r' s := by
  induction hs generalizing r' with
  | inline hp =>
    obtain ⟨p, hp', ⟨⟩⟩ := Catalog.plan_alike h hp
    exact .inline hp'
  | layer hp _ ih =>
    obtain ⟨p, hp', ha⟩ := Catalog.plan_alike h hp
    cases ha with
    | layer _ hinner => exact .layer hp' (ih hinner)
  | component hp =>
    obtain ⟨p, hp', ha⟩ := Catalog.plan_alike h hp
    cases ha with
    | component => exact .component hp'

/-! ## Spelled references under conventional names -/

namespace Catalog

variable {c : Catalog} {r r' : Reference} {rs rs' : List Reference} {key : String}
  {ps ps' : List Property}

theorem PlanOk.references {d : Descriptor} {b : Reference.Bindings} {p : Plan}
    (hp : c.PlanOk d rs b p) :
    ∀ q ∈ p.references, ∃ r ∈ d.kind.references, q = r.substitute b := by
  cases hp with
  | primitive => rintro q ⟨⟩
  | enumeration => rintro q ⟨⟩
  | dictionary hkind => simp [hkind, Plan.references, Kind.references]
  | enumerable hkind => simp [hkind, Plan.references, Kind.references]
  | object hkind =>
    rw [hkind]
    intro q hq
    obtain ⟨p, hp, rfl⟩ := List.mem_map.mp hq
    exact ⟨p.type, List.mem_map_of_mem hp, rfl⟩

/-- Descriptors with spelled references keep references spelled. -/
theorem Spelled.preserves (hc : c.Spelled) : c.Preserves Reference.Spelled := by
  intro r p hp hr q hq
  cases r with
  | array element =>
    cases hp
    cases List.mem_singleton.mp hq
    exact hr.element
  | named name rs =>
    obtain ⟨d, hd, -, hp⟩ := plan_named_eq_ok.mp hp
    have hkind : d.kind.Spelled := hc d (resolve_eq_ok hd).1
    obtain ⟨body, hbody, rfl⟩ := hp.references q hq
    exact (hkind body hbody).substitute fun hs =>
      hr.arguments _ (Reference.Bindings.ofLists_mem hs)

end Catalog
end SchemaGraph
