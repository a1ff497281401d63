import SchemaGraph.Proofs.Compile.Calls
import SchemaGraph.Proofs.Document.Pointers

/-! # The schema graph is closed

While components are compiled the registry holds pending keys and references to them. A
successful compilation leaves nothing pending of what it added, and every reference in its node
and in the entries it added names a key that is there. Calls on a registry that starts empty
therefore keep it closed, whichever of them fail, and the document of what they returned dangles
nowhere. -/

namespace SchemaGraph

namespace Registry

variable {g : Registry} {k : String} {e : Entry} {s : Schema}

/-- A finished schema stands under the key. -/
def IsReady (g : Registry) (key : String) : Prop := ∃ s, g.get? key = some (.ready s)

/-- Every entry is finished, and every component that it refers to is there. -/
def Closed (g : Registry) : Prop :=
  ∀ k e, g.get? k = some e → ∃ s, e = .ready s ∧ ∀ k' ∈ s.refs, k' ∈ g.keys

theorem closed_empty : empty.Closed := by
  intro k e he
  cases he

theorem Closed.isReady (hg : g.Closed) (hk : k ∈ g.keys) : g.IsReady k := by
  obtain ⟨e, he⟩ := mem_keys.mp hk
  obtain ⟨s, rfl, -⟩ := hg k e he
  exact ⟨s, he⟩

theorem Closed.pendingKeys (hg : g.Closed) : g.pendingKeys = [] := by
  refine pendingKeys_eq_nil_iff.mpr fun k hk => ?_
  obtain ⟨s, hs, -⟩ := hg k _ hk
  cases hs

theorem mem_keys_finished : k ∈ (finished g.entries).keys ↔ g.IsReady k := by
  rw [Table.mem_keys_iff_get?, Option.isSome_iff_exists]
  exact exists_congr fun s => get?_finished g.nodup

/-- The document of a closed registry dangles nowhere, if the named nodes refer to what the
registry holds. -/
theorem Closed.build (hg : g.Closed) (info : Info) {references : Table Schema}
    (hr : ∀ e ∈ references, ∀ k ∈ e.2.refs, k ∈ g.keys) :
    ∃ d, Document.build info g references = .ok d ∧ d.NoDangling := by
  refine ⟨_, Document.build_eq hg.pendingKeys info references,
    Document.noDangling_ofFinished (nodup_keys_finished g.nodup) ?_ ?_⟩
  · rintro ⟨k, s⟩ he k' hk'
    have hs := (Table.get?_eq_some_iff g.nodup).mpr (mem_finished.mp he)
    obtain ⟨t, ht, hrefs⟩ := hg k _ hs
    cases ht
    exact mem_keys_finished.mpr (hg.isReady (hrefs k' hk'))
  · intro e he k hk
    exact mem_keys_finished.mpr (hg.isReady (hr e he k hk))

end Registry

namespace Catalog

variable {c : Catalog} {r : Reference} {g g' : Registry} {s : Schema}

/-- Compiling keeps a registry closed. -/
theorem closed_compile (h : c.compile r g = (.ok s, g')) (hg : g.Closed) : g'.Closed := by
  have hs := compile_spec_true h
  intro k e he
  rcases Registry.get?_or_of_le hs.le he with he' | hk
  · obtain ⟨t, ht, hrefs⟩ := hg k e he'
    exact ⟨t, ht, fun k' hk' => Registry.keys_of_le hs.le (hrefs k' hk')⟩
  · exact (hs.adds k e he hk).ready

/-- After any calls on the empty registry it is closed, and holds all that the nodes returned so
far refer to. -/
theorem closed_calls (c : Catalog) (ks : List Call) :
    (c.calls ks .empty).2.Closed ∧
      ∀ s ∈ nodesOf (c.calls ks .empty).1, ∀ k ∈ s.refs, k ∈ (c.calls ks .empty).2.keys := by
  let Inv (g : Registry) (nodes : List Schema) : Prop :=
    g.Closed ∧ ∀ s ∈ nodes, ∀ k ∈ s.refs, k ∈ g.keys
  change Inv (c.calls ks .empty).2 ([] ++ nodesOf (c.calls ks .empty).1)
  refine calls_induction Inv ?_ ⟨Registry.closed_empty, by simp⟩
  rintro k r s g g' nodes - - hc ⟨hclosed, hnodes⟩
  have hs := compile_spec_true hc
  refine ⟨closed_compile hc hclosed, fun t ht k hk => ?_⟩
  rcases List.mem_append.mp ht with ht | ht
  · exact Registry.keys_of_le hs.le (hnodes t ht k hk)
  · cases List.mem_singleton.mp ht
    exact hs.refs k hk

/-- The schema graph is closed. A successful compilation, whatever registry it starts from, adds
finished entries only, and what its node and these entries refer to is there. So after any calls
on the empty registry nothing is pending, everything that an entry or a returned node refers to is
finished, and the document of the registry and of any of these nodes exists and dangles nowhere. -/
theorem schemaGraph_closed (c : Catalog) :
    (∀ r g s g', c.compile r g = (.ok s, g') →
      (∀ k e, g'.get? k = some e → k ∉ g.keys →
        ∃ t, e = .ready t ∧ ∀ k' ∈ t.refs, k' ∈ g'.keys) ∧
      ∀ k ∈ s.refs, k ∈ g'.keys) ∧
    ∀ ks answers g, c.calls ks .empty = (answers, g) →
      (∀ k e, g.get? k = some e → ∃ t, e = .ready t ∧ ∀ k' ∈ t.refs, g.IsReady k') ∧
      (∀ s ∈ nodesOf answers, ∀ k ∈ s.refs, g.IsReady k) ∧
      ∀ info (references : Table Schema), (∀ e ∈ references, e.2 ∈ nodesOf answers) →
        ∃ d, Document.build info g references = .ok d ∧ d.NoDangling := by
  constructor
  · intro r g s g' h
    have hs := compile_spec_true h
    exact ⟨fun k e he hk => (hs.adds k e he hk).ready, hs.refs⟩
  · intro ks answers g h
    obtain ⟨hclosed, hnodes⟩ := closed_calls c ks
    rw [h] at hclosed hnodes
    refine ⟨fun k e he => ?_, fun s hs k hk => hclosed.isReady (hnodes s hs k hk), ?_⟩
    · obtain ⟨t, ht, hrefs⟩ := hclosed k e he
      exact ⟨t, ht, fun k' hk' => hclosed.isReady (hrefs k' hk')⟩
    · intro info references href
      exact hclosed.build info fun e he k hk => hnodes e.2 (href e he) k hk

/-- Two object types that refer to each other. -/
def mutualTypes : Catalog where
  types := [
    ⟨"Department", [], .object [{ name := "Head", type := .leaf "Employee", writable := false }]⟩,
    ⟨"Employee", [], .object [{ name := "Unit", type := .leaf "Department" }]⟩]
  aliases := []
  sources := []

/-- A compilation beside a pending entry, and calls of which one fails. -/
theorem schemaGraph_closed_mutualTypes :
    let g := Registry.empty.put "Person" .pending
    let g' := (mutualTypes.compile (.leaf "Department") g).2
    let ks := [.tokens ["Employee"], .tokens ["Employee", "Department"], .tokens []]
    (∃ t, g'.get? "Employee" = some (.ready t) ∧ ∀ k ∈ t.refs, k ∈ g'.keys) ∧
      ∃ d, Document.build ⟨"Staff", "1"⟩ (mutualTypes.calls ks .empty).2
        [("boss", .ref "Employee")] = .ok d ∧ d.NoDangling := by
  obtain ⟨hcompile, hcalls⟩ := schemaGraph_closed mutualTypes
  intro g g' ks
  constructor
  · have h : mutualTypes.compile (.leaf "Department") g = (.ok (.ref "Department"), g') := rfl
    obtain ⟨e, he⟩ : ∃ e, g'.get? "Employee" = some e := ⟨_, rfl⟩
    have hk : "Employee" ∉ g.keys := by decide
    obtain ⟨t, rfl, hrefs⟩ := (hcompile _ _ _ _ h).1 "Employee" e he hk
    exact ⟨t, he, hrefs⟩
  · have hnodes : nodesOf (mutualTypes.calls ks .empty).1 = [.ref "Employee"] := rfl
    rcases h : mutualTypes.calls ks .empty with ⟨answers, g⟩
    rw [h] at hnodes
    exact (hcalls ks answers g h).2.2 _ _ (by simp [hnodes])

end Catalog
end SchemaGraph
