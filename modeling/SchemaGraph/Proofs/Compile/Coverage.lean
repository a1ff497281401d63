import Mathlib.Data.Set.Defs
import SchemaGraph.Proofs.Compile.Denotation

/-! # What a compilation adds is needed

A compilation adds the keys only that its node refers to, directly or through components that it
adds. So a set that holds the keys of the node, and with the key of a component all that its
properties refer to, holds every key that is added (`node_covered`). -/

namespace SchemaGraph

variable {c : Catalog} {P : Reference → Prop} {K : Set String} {limit n : Nat} {r : Reference}
  {rs : List Reference} {g g' h : Registry} {s : Schema} {ss : List Schema}

/-- With the key of a component of the registry the set holds all that the properties of the
component refer to. -/
def Registry.FollowedBy (g : Registry) (c : Catalog) (P : Reference → Prop) (K : Set String) :
    Prop :=
  ∀ {r key ps rs ss}, P r → c.plan r = .ok (.component key ps rs) →
    List.Forall₂ (Denotes c) rs ss → g.get? key = some (.ready (Compile.body ps ss)) → key ∈ K →
    ∀ s ∈ ss, ∀ k ∈ s.refs, k ∈ K

theorem Registry.FollowedBy.anti (hh : h.FollowedBy c P K)
    (hgh : ∀ k s, g.get? k = some (.ready s) → h.get? k = some (.ready s)) :
    g.FollowedBy c P K :=
  fun hr hp hss he => hh hr hp hss (hgh _ _ he)

namespace Compile

theorem each_covered {node : Reference → Registry → Outcome Schema}
    (hle : ∀ r g, g ≤ (node r g).2)
    (hnode : ∀ {r g s g'}, P r → node r g = (.ok s, g') → g'.FollowedBy c P K →
      (∀ k ∈ s.refs, k ∈ K) → ∀ k ∈ g'.keys, k ∈ g.keys ∨ k ∈ K)
    (hP : ∀ r ∈ rs, P r) (he : each node rs g = (.ok ss, g')) (hK : g'.FollowedBy c P K)
    (hss : ∀ s ∈ ss, ∀ k ∈ s.refs, k ∈ K) : ∀ k ∈ g'.keys, k ∈ g.keys ∨ k ∈ K := by
  induction rs generalizing g ss with
  | nil =>
    cases he
    exact fun k hk => .inl hk
  | cons r rs ih =>
    obtain ⟨s, g₁, ss, hs, hmore, rfl⟩ := each_cons_eq_ok.mp he
    rw [List.forall_mem_cons] at hP hss
    have hle₁ : g₁ ≤ g' := by
      have hle₁ := le_each hle rs g₁
      rwa [hmore] at hle₁
    have hK₁ : g₁.FollowedBy c P K := hK.anti fun _ _ => Registry.get?_of_le hle₁
    intro k hk
    rcases ih hP.2 hmore hss.2 k hk with hk | hk
    · exact hnode hP.1 hs hK₁ hss.1 k hk
    · exact .inr hk

/-- A compilation adds keys only of a set that its node refers into and that follows references. -/
theorem node_covered (hP : c.Preserves P) (hr : P r) (hn : node c limit n r g = (.ok s, g'))
    (hK : g'.FollowedBy c P K) (hs : ∀ k ∈ s.refs, k ∈ K) :
    ∀ k ∈ g'.keys, k ∈ g.keys ∨ k ∈ K := by
  induction n generalizing r g s g' with
  | zero => cases hn
  | succ n ih =>
    cases node_ok hn with
    | inline hp => exact fun k hk => .inl hk
    | layer hp hn => exact ih (hP hp hr _ List.mem_cons_self) hn hK (by simpa using hs)
    | hit hp hk => exact fun k hk => .inl hk
    | @fresh key ps rs ss g₁ hp hk he =>
      have hkey : key ∈ K := hs key (by simp [Schema.refs])
      obtain ⟨hle, hss, -⟩ := each_spec (fun hr hn => node_spec hP hr hn) (hP hp hr) he
      have hbody : (g₁.finalize key (body ps ss)).get? key = some (.ready (body ps ss)) := by
        rw [Registry.get?_finalize, if_pos rfl]
      -- the component was pending until now, so no earlier entry is lost
      have hpending : g₁.get? key = some .pending :=
        Registry.get?_of_le hle (by rw [Registry.get?_put, if_pos rfl])
      have hK₁ : g₁.FollowedBy c P K := by
        refine hK.anti fun k s hready => ?_
        have hne : k ≠ key := by
          rintro rfl
          rw [hpending] at hready
          cases hready
        rwa [Registry.get?_finalize, if_neg hne]
      have hcovered := each_covered (node_le c limit n) (fun hr hn hK hs => ih hr hn hK hs)
        (hP hp hr) he hK₁ (hK hr hp hss hbody hkey)
      intro k hk'
      rcases Registry.mem_keys_finalize.mp hk' with rfl | hk'
      · exact .inr hkey
      · rcases hcovered k hk' with hk' | hk'
        · rcases Registry.mem_keys_put.mp hk' with rfl | hk'
          · exact .inr hkey
          · exact .inl hk'
        · exact .inr hk'

end Compile
end SchemaGraph
