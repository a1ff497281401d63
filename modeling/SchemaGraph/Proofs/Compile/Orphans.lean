import Mathlib.Order.Bounds.Defs
import SchemaGraph.Proofs.Compile.Closure
import SchemaGraph.Proofs.Compile.Coverage
import SchemaGraph.Proofs.Compile.Refinement

/-! # No orphan components

Where the wire names of every object type are distinct, a component refers to all that its
properties refer to. So after any calls on the empty registry its keys are the least set that holds
what the returned nodes refer to and is closed under the references of its components: nothing
that is reachable is missing, and nothing else is kept. -/

namespace SchemaGraph

variable {c : Catalog} {r : Reference} {g g' h : Registry} {s : Schema} {nodes : List Schema}
  {K : Set String} {ks : List Call}

/-- No two properties of an object type have one wire name. -/
def Catalog.DistinctWireNames (c : Catalog) : Prop :=
  ∀ d ∈ c.types, ∀ ps, d.kind = .object ps → (ps.map (·.wireName)).Nodup

/-- The set holds the keys that the nodes refer to, and with the key of a component of the registry
those that the component refers to. -/
structure Registry.Supports (g : Registry) (nodes : List Schema) (K : Set String) : Prop where
  nodes : ∀ s ∈ nodes, ∀ k ∈ s.refs, k ∈ K
  components : ∀ k ∈ K, ∀ s, g.get? k = some (.ready s) → ∀ k' ∈ s.refs, k' ∈ K

namespace Registry.Supports

theorem of_append {more : List Schema} (hK : g.Supports (nodes ++ more) K) :
    g.Supports nodes K :=
  ⟨fun s hs => hK.nodes s (List.mem_append_left _ hs), hK.components⟩

theorem anti (hK : h.Supports nodes K) (hgh : g ≤ h) : g.Supports nodes K :=
  ⟨hK.nodes, fun k hk s hs => hK.components k hk s (Registry.get?_of_le hgh hs)⟩

/-- With distinct wire names what components refer to is what their properties refer to. -/
theorem followedBy (hK : g.Supports nodes K) (hc : c.DistinctWireNames) (P : Reference → Prop) :
    g.FollowedBy c P K := by
  intro r key ps rs ss _ hp hss hready hkey s hs k hk
  obtain ⟨name, arguments, d, -, hd, hkind, rfl⟩ := Catalog.plan_component hp
  have hnames := hc d (Catalog.resolve_eq_ok hd).1 ps hkind
  have hlength : ps.length = ss.length := by
    rw [← hss.length_eq, List.length_map]
  refine hK.components key hkey _ hready k ?_
  rw [Compile.refs_body hnames hlength]
  exact List.mem_flatMap_of_mem hs hk

end Registry.Supports

namespace Catalog

/-- What a compilation adds is in every set that supports its node. -/
theorem mem_of_compile (hc : c.DistinctWireNames) (h : c.compile r g = (.ok s, g'))
    (hK : g'.Supports (nodes ++ [s]) K) : ∀ k ∈ g'.keys, k ∈ g.keys ∨ k ∈ K := by
  have hfollowed : g'.FollowedBy c (fun _ => True) K := hK.followedBy hc fun _ => True
  have hs : ∀ k ∈ s.refs, k ∈ K := hK.nodes s (List.mem_append_right _ List.mem_cons_self)
  exact Compile.node_covered c.preserves_true trivial (compile_eq_ok.mp h) hfollowed hs

/-- After any calls every key is in every set that supports the nodes returned so far. -/
theorem mem_of_calls (hc : c.DistinctWireNames) (ks : List Call) :
    ∀ K, (c.calls ks .empty).2.Supports (nodesOf (c.calls ks .empty).1) K →
      ∀ k ∈ (c.calls ks .empty).2.keys, k ∈ K := by
  let Inv (g : Registry) (nodes : List Schema) : Prop :=
    ∀ K, g.Supports nodes K → ∀ k ∈ g.keys, k ∈ K
  change Inv (c.calls ks .empty).2 ([] ++ nodesOf (c.calls ks .empty).1)
  refine calls_induction Inv ?_ ?_
  · intro k r s g g' nodes _ _ h hg K hK k hk
    rcases mem_of_compile hc h hK k hk with hk | hk
    · exact hg K (hK.of_append.anti (compile_le h)) k hk
    · exact hk
  · intro K _ k hk
    cases hk

/-- No component is an orphan and none is missing. After any calls on the empty registry, of which
some may fail, its keys are the least set that holds what the returned nodes refer to and is closed
under the references of the components. -/
theorem keys_isLeast (hc : c.DistinctWireNames) (ks : List Call) :
    IsLeast {K : Set String | (c.calls ks .empty).2.Supports (nodesOf (c.calls ks .empty).1) K}
      {k | k ∈ (c.calls ks .empty).2.keys} := by
  obtain ⟨hclosed, hnodes⟩ := closed_calls c ks
  constructor
  · refine ⟨hnodes, fun k _ s hs => ?_⟩
    obtain ⟨t, ht, hrefs⟩ := hclosed k _ hs
    cases ht
    exact hrefs
  · intro K hK k hk
    exact mem_of_calls hc ks K hK k hk

/-- Orders with their buyers, and a type that gives arguments to a buyer, who takes none. -/
def orderTypes : Catalog where
  types := [
    ⟨"Order", [], .object [
      { name := "Buyer", type := .leaf "Buyer", writable := false },
      { name := "Copies", type := .array (.leaf "Order") }]⟩,
    ⟨"Buyer", [], .object []⟩,
    ⟨"Broken", [], .object [
      { name := "Order", type := .leaf "Order" },
      { name := "Wrong", type := .named "Buyer" [.leaf "Order"] }]⟩]
  aliases := []
  sources := []

/-- A call that fails after it compiled an order, and one for an array of orders. -/
theorem keys_isLeast_orderTypes :
    let ks := [.tokens ["Broken"], .tokens ["Order[]"]]
    orderTypes.DistinctWireNames ∧
      nodesOf (orderTypes.calls ks .empty).1 = [.array (.ref "Order") false] ∧
      IsLeast {K : Set String |
          (orderTypes.calls ks .empty).2.Supports [.array (.ref "Order") false] K}
        {k | k ∈ ["Order", "Buyer"]} := by
  intro ks
  have hc : orderTypes.DistinctWireNames := by
    intro d hd ps hkind
    simp only [orderTypes, List.mem_cons, List.not_mem_nil, or_false] at hd
    rcases hd with rfl | rfl | rfl <;> cases hkind <;> decide
  exact ⟨hc, rfl, keys_isLeast hc ks⟩

end Catalog
end SchemaGraph
