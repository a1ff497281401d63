import SchemaGraph.Proofs.Catalog.Reachable
import SchemaGraph.Proofs.Reference.Names

/-! # References in catalog texts

A text gives every type reference as a token list, so the descriptors of a loaded catalog hold
spelled references only. -/

namespace SchemaGraph

/-! ## What readers yield -/

/-- What is read has the property, if anything is read. -/
def Yields {α : Type} (P : α → Prop) (x : Except ReadError α) : Prop := ∀ a, x = .ok a → P a

namespace Yields

variable {α β : Type} {P : α → Prop} {Q : β → Prop} {a : α} {e : ReadError}

theorem ok (h : P a) : Yields P (.ok a) := by
  rintro _ ⟨⟩
  exact h

theorem error : Yields P (.error e : Except ReadError α) := by
  rintro _ ⟨⟩

theorem bind {x : Except ReadError β} {f : β → Except ReadError α} (hx : Yields Q x)
    (hf : ∀ b, Q b → Yields P (f b)) : Yields P (x >>= f) := by
  cases x with
  | error e => exact error
  | ok b => exact hf b (hx b rfl)

theorem of_bind {x : Except ReadError β} {f : β → Except ReadError α}
    (hf : ∀ b, Yields P (f b)) : Yields P (x >>= f) :=
  bind (Q := fun _ => True) (fun _ _ => trivial) fun b _ => hf b

theorem mapM {f : β → Except ReadError α} (hf : ∀ b, Yields P (f b)) (bs : List β) :
    Yields (fun as => ∀ a ∈ as, P a) (bs.mapM f) := by
  induction bs with
  | nil => exact ok (by simp)
  | cons b bs ih =>
    rw [List.mapM_cons]
    refine bind (hf b) fun a ha => bind ih fun as has => ?_
    exact ok (List.forall_mem_cons.mpr ⟨ha, has⟩)

theorem finish {closed : Bool} (h : P a) : Yields P (Node.finish closed a) := by
  rw [Node.finish]
  split
  · exact ok h
  · exact error

theorem each {f : Node → Except ReadError α} (hf : ∀ n, Yields P (f n)) (n : Node) :
    Yields (fun as => ∀ a ∈ as, P a) (n.each f) :=
  of_bind fun _ => bind (mapM hf _) fun _ has => finish has

end Yields

/-! ## References in descriptors -/

/-- The references in a description. -/
def Kind.references : Kind → List Reference
  | .primitive _ | .enumeration _ => []
  | .dictionary value => [value]
  | .enumerable item => [item]
  | .object ps => ps.map (·.type)

/-- Every reference in the description is spelled. -/
def Kind.Spelled (k : Kind) : Prop := ∀ r ∈ k.references, r.Spelled

theorem Value.yields_reference (v : Value) : Yields Reference.Spelled v.reference := by
  rw [Value.reference.eq_def]
  dsimp only
  split
  on_goal 2 => split
  -- whatever the tokens are, they are decoded
  all_goals
    refine .of_bind fun tokens => ?_
    split
    · next hr => exact .ok (Reference.spelled_of_decode hr)
    · exact .error
    · exact .error

namespace Property
namespace Draft

/-- The reference that was read is spelled. -/
def Spelled (d : Draft) : Prop := ∀ r, d.type = some r → r.Spelled

theorem yields_set {d : Draft} (hd : d.Spelled) (name : String) (v : Value) :
    Yields Spelled (d.set name v) := by
  rw [set]
  split
  · exact .of_bind fun _ => .ok hd
  · split
    · refine .bind (Q := Reference.Spelled) ?_ fun r hr => .ok ?_
      · dsimp only
        split
        · exact .error
        · exact v.yields_reference
      · rintro _ ⟨⟩
        exact hr
    · split
      · exact .of_bind fun _ => .ok hd
      · split
        · exact .of_bind fun _ => .ok hd
        · exact .of_bind fun _ => .ok hd

theorem yields_setAll {d : Draft} (hd : d.Spelled) (es : List (Value × Value)) :
    Yields Spelled (d.setAll es) := by
  induction es generalizing d with
  | nil => exact .ok hd
  | cons e es ih =>
    refine .of_bind fun name => ?_
    split
    · exact .bind (yields_set hd _ _) fun d hd => ih hd
    · exact ih hd

theorem yields_setItems {d : Draft} (hd : d.Spelled) (names : List String) (vs : List Value) :
    Yields Spelled (d.setItems names vs) := by
  induction names generalizing d vs with
  | nil => exact .ok hd
  | cons name names ih =>
    cases vs with
    | nil => exact .ok hd
    | cons v vs => exact .bind (yields_set hd name v) fun d hd => ih hd vs

theorem yields_finish {d : Draft} (hd : d.Spelled) :
    Yields (fun p => p.type.Spelled) d.finish := by
  rw [finish]
  split
  · split
    · next htype => exact .ok (hd _ htype)
    · exact .error
  · exact .error

end Draft

theorem yields_ofValue (v : Value) : Yields (fun p => p.type.Spelled) (ofValue v) := by
  have hnone : Draft.Spelled {} := by rintro _ ⟨⟩
  cases v with
  | atom a => exact .error
  | map es => exact .bind (Draft.yields_setAll hnone es) fun d hd => Draft.yields_finish hd
  | seq vs =>
    refine .bind (Draft.yields_setItems hnone _ vs) fun d hd => ?_
    split
    · exact .error
    · split
      · exact .error
      · exact Draft.yields_finish hd

end Property

section Fields

variable {α : Type} {P : α → Prop} {read : Value → Except ReadError α} {name : String}

theorem yields_uniqueField (hread : ∀ v, Yields P (read v)) (fs : List (String × Value))
    {done : Option α} (hdone : ∀ a, done = some a → P a) :
    Yields (fun x => ∀ a, x = some a → P a) (uniqueField name read fs done) := by
  induction fs generalizing done with
  | nil => exact .ok hdone
  | cons f fs ih =>
    obtain ⟨k, v⟩ := f
    rw [uniqueField]
    split
    · split
      · exact .error
      · refine .bind (hread v) fun a ha => ih ?_
        rintro _ ⟨⟩
        exact ha
    · exact ih hdone

theorem yields_requiredField (hread : ∀ v, Yields P (read v)) (fs : List (String × Value)) :
    Yields P (requiredField name read fs) := by
  have hnone : ∀ a, none = some a → P a := by rintro _ ⟨⟩
  refine .bind (yields_uniqueField hread fs hnone) fun x hx => ?_
  split
  · exact .ok (hx _ rfl)
  · exact .error

end Fields

theorem Kind.yields_ofFields (fs : List (String × Value)) : Yields Spelled (ofFields fs) := by
  rw [ofFields]
  refine .of_bind fun i => ?_
  split
  · exact .of_bind fun _ => .ok (by simp [Spelled, references])
  · exact .of_bind fun _ => .ok (by simp [Spelled, references])
  · refine .bind (yields_requiredField Value.yields_reference fs) fun r hr => .ok ?_
    simpa [Spelled, references] using hr
  · refine .bind (yields_requiredField Value.yields_reference fs) fun r hr => .ok ?_
    simpa [Spelled, references] using hr
  · have hread : ∀ v, Yields (fun ps => ∀ p ∈ ps, p.type.Spelled)
        (Value.each Property.ofValue v) := by
      intro v
      cases v with
      | seq vs => exact .mapM Property.yields_ofValue vs
      | _ => exact .error
    have hnone : ∀ ps : List Property, none = some ps → ∀ p ∈ ps, p.type.Spelled := by
      rintro _ ⟨⟩
    refine .bind (yields_uniqueField hread fs hnone) fun x hx => .ok ?_
    intro r hr
    obtain ⟨p, hp, rfl⟩ := List.mem_map.mp hr
    cases x with
    | none => cases hp
    | some ps => exact hx ps rfl p hp

namespace Descriptor

theorem yields_finish (d : Draft) : Yields (fun d => d.kind.Spelled) d.finish := by
  rw [Draft.finish]
  split
  · exact .bind (Kind.yields_ofFields _) fun k hk => .ok hk
  · exact .error

theorem yields_ofNode (depth : Nat) (n : Node) :
    Yields (fun d => d.kind.Spelled) (ofNode depth n) :=
  .of_bind fun _ => .of_bind fun _ => .of_bind fun _ => yields_finish _

end Descriptor

/-! ## References in loaded catalogs -/

namespace Catalog

variable {c : Catalog} {f : Format} {source text : String} {ds : List Descriptor}

/-- Every reference in a descriptor is spelled. -/
def Spelled (c : Catalog) : Prop := ∀ d ∈ c.types, d.kind.Spelled

theorem yields_typesField (es : List (Node × Node)) {done : Option (List Descriptor)}
    (hdone : ∀ ds, done = some ds → ∀ d ∈ ds, d.kind.Spelled) :
    Yields (fun x => ∀ ds, x = some ds → ∀ d ∈ ds, d.kind.Spelled) (typesField f done es) := by
  induction es generalizing done with
  | nil => exact .ok hdone
  | cons e es ih =>
    rw [typesField]
    refine .of_bind fun key => ?_
    split
    · split
      · exact .error
      · refine .bind (.each (Descriptor.yields_ofNode _) e.2) fun ds hds => ih ?_
        rintro _ ⟨⟩
        exact hds
    · exact .of_bind fun _ => ih hdone

theorem yields_rootTypes (n : Node) :
    Yields (fun ds => ∀ d ∈ ds, d.kind.Spelled) (rootTypes f n) := by
  have htypes (n : Node) : Yields (fun ds => ∀ d ∈ ds, d.kind.Spelled) (typeList f n) :=
    .each (Descriptor.yields_ofNode _) n
  have hnone : ∀ ds : List Descriptor, none = some ds → ∀ d ∈ ds, d.kind.Spelled := by
    rintro _ ⟨⟩
  rw [rootTypes.eq_def]
  split
  · dsimp only
    split
    · exact .error
    · split
      · exact .finish (by simp)
      · exact .bind (htypes _) fun ds hds => .finish hds
      · exact .of_bind fun _ => .error
  · refine .of_bind fun x => .bind (yields_typesField x.1 hnone) fun y hy => .finish ?_
    cases y with
    | none => simp
    | some ds => exact hy ds rfl

theorem spelled_of_readTypes (h : readTypes f text = .ok ds) : ∀ d ∈ ds, d.kind.Spelled := by
  have hread : Yields (fun ds => ∀ d ∈ ds, d.kind.Spelled) (readTypes f text) :=
    .bind (yields_rootTypes _) fun _ hds => .finish hds
  exact hread ds h

theorem Spelled.load (hc : c.Spelled) : (c.load f source text).2.Spelled := by
  refine load_induct hc ?_ fun _ h => h
  intro c c' d ds hread hd hi hc
  obtain ⟨-, rfl⟩ := insert_eq_ok hi
  rintro e he
  rcases List.mem_append.mp he with he | he
  · exact hc e he
  · cases List.mem_singleton.mp he
    exact spelled_of_readTypes hread d hd

theorem spelled_builtin : builtin.Spelled := by
  have hleaf : ∀ name ∈ ["T", "TValue"], (Reference.leaf name).Spelled := by
    intro name hname
    have hbase : ∀ name ∈ ["T", "TValue"], Token.IsBase name.toList := by decide
    exact .leaf (.of_base (hbase name hname))
  intro d hd
  simp only [builtin, builtinTypes, List.mem_append, List.mem_map] at hd
  rcases hd with (⟨p, -, rfl⟩ | ⟨n, -, rfl⟩) | ⟨n, -, rfl⟩
  · simp [Kind.Spelled, Kind.references]
  · simpa [Kind.Spelled, Kind.references] using hleaf "T" (by simp)
  · simpa [Kind.Spelled, Kind.references] using hleaf "TValue" (by simp)

theorem Loaded.spelled (h : c.Loaded) : c.Spelled := by
  induction h with
  | empty => rintro d ⟨⟩
  | builtin => exact spelled_builtin
  | load _ f source text ih => exact ih.load

end Catalog
end SchemaGraph
