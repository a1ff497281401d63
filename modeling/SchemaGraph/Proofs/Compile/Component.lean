import SchemaGraph.Proofs.Compile.Plan

/-! # The component of an object type

A component holds the schemas of its properties under their wire names, put in one after another.
It refers to nothing but what its properties refer to, and to all of that if no two of them have
one wire name. -/

namespace SchemaGraph
namespace Compile

variable {ps : List Property} {ss : List Schema} {s : Schema} {k : String}

/-- The schemas of properties under their wire names, in declared order. -/
def wireEntries (ps : List Property) (ss : List Schema) : Table Schema :=
  List.zipWith (fun p s => (p.wireName, propertySchema p s)) ps ss

theorem propertyTable_eq_ofList (ps : List Property) (ss : List Schema) :
    propertyTable ps ss [] = .ofList (wireEntries ps ss) := by
  have h : ∀ done, propertyTable ps ss done =
      (wireEntries ps ss).foldl (fun t e => t.put e.1 e.2) done := by
    induction ps generalizing ss with
    | nil => exact fun _ => rfl
    | cons p ps ih =>
      cases ss with
      | nil => exact fun _ => rfl
      | cons s ss => exact fun done => ih ss _
  exact h []

theorem keys_wireEntries (h : ps.length = ss.length) :
    (wireEntries ps ss).keys = ps.map (·.wireName) := by
  induction ps generalizing ss with
  | nil => rfl
  | cons p ps ih =>
    cases ss with
    | nil => cases h
    | cons s ss => exact congrArg (p.wireName :: ·) (ih (Nat.succ.inj h))

/-! ## References -/

@[simp] theorem refs_propertySchema (p : Property) (s : Schema) :
    (propertySchema p s).refs = s.refs := by
  rw [propertySchema]; split <;> simp

theorem refs_of_mem_wireEntries {e : String × Schema} (he : e ∈ wireEntries ps ss) :
    ∃ s ∈ ss, e.2.refs = s.refs := by
  induction ps generalizing ss with
  | nil => cases he
  | cons p ps ih =>
    cases ss with
    | nil => cases he
    | cons s ss =>
      rcases List.mem_cons.mp he with rfl | he
      · exact ⟨s, List.mem_cons_self, refs_propertySchema p s⟩
      · obtain ⟨t, ht, hrefs⟩ := ih he
        exact ⟨t, List.mem_cons_of_mem _ ht, hrefs⟩

theorem refsAll_wireEntries (h : ps.length = ss.length) :
    Schema.refsAll (wireEntries ps ss) = ss.flatMap Schema.refs := by
  induction ps generalizing ss with
  | nil =>
    obtain rfl := List.eq_nil_of_length_eq_zero h.symm
    rfl
  | cons p ps ih =>
    cases ss with
    | nil => cases h
    | cons s ss =>
      have hmore := ih (Nat.succ.inj h)
      rw [wireEntries] at hmore ⊢
      rw [List.zipWith_cons_cons, Schema.refsAll, hmore, refs_propertySchema, List.flatMap_cons]

/-- A component refers to nothing but what its properties refer to. -/
theorem mem_refs_body (hk : k ∈ (body ps ss).refs) : ∃ s ∈ ss, k ∈ s.refs := by
  rw [body, Schema.refs, propertyTable_eq_ofList, Schema.refsAll_eq_flatMap] at hk
  obtain ⟨e, he, hk⟩ := List.mem_flatMap.mp hk
  obtain ⟨s, hs, hrefs⟩ := refs_of_mem_wireEntries (Table.mem_of_mem_ofList he)
  exact ⟨s, hs, hrefs ▸ hk⟩

/-- A component whose properties have distinct wire names refers to all that they refer to. -/
theorem refs_body (hnames : (ps.map (·.wireName)).Nodup) (h : ps.length = ss.length) :
    (body ps ss).refs = ss.flatMap Schema.refs := by
  have hkeys : (wireEntries ps ss).keys.Nodup := by rwa [keys_wireEntries h]
  rw [body, Schema.refs, propertyTable_eq_ofList, Table.ofList_of_nodup hkeys,
    refsAll_wireEntries h]

end Compile
end SchemaGraph
