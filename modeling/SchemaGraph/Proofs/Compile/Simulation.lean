import SchemaGraph.Proofs.Compile.Alike
import SchemaGraph.Proofs.Compile.Coverage

/-! # Compilation beside a finished registry

Suppose that every key stands for one component (`Coherent`). Then a compilation that succeeds on
one registry does just as well on a registry that holds, besides, all components of a finished
one (`Beside`): in lock-step, except where a component is already there. What the first run
compiles at such a place is all there too (`node_covered`), so the runs meet again behind it. -/

namespace SchemaGraph

variable {c : Catalog} {P : Reference → Prop} {limit n : Nat} {r r' : Reference}
  {rs rs' : List Reference} {g g' h h' b : Registry} {s : Schema} {ss ss' : List Schema}
  {key k : String} {e f : Entry}

/-- References with the property that are registered under one key are planned as one component,
up to alike references. -/
def Catalog.Coherent (c : Catalog) (P : Reference → Prop) : Prop :=
  ∀ {r r' key ps ps' rs rs'}, P r → P r' → c.plan r = .ok (.component key ps rs) →
    c.plan r' = .ok (.component key ps' rs') → ps = ps' ∧ List.Forall₂ c.Alike rs rs'

namespace Compile

/-! ## Coherent components -/

theorem denotes_unique_of_alike (h : List.Forall₂ c.Alike rs rs')
    (hs : List.Forall₂ (Denotes c) rs ss) (hs' : List.Forall₂ (Denotes c) rs' ss') : ss = ss' := by
  induction h generalizing ss ss' with
  | nil => cases hs; cases hs'; rfl
  | cons h _ ih =>
    cases hs with
    | cons hs hss =>
      cases hs' with
      | cons hs' hss' => rw [(hs.alike h).unique hs', ih hss hss']

theorem Finished.unique (hco : c.Coherent P) (he : Finished c P g key e)
    (hf : Finished c P h key f) : e = f := by
  obtain ⟨r, ps, rs, ss, hr, hp, hss, -, rfl⟩ := he
  obtain ⟨r', ps', rs', ss', hr', hp', hss', -, rfl⟩ := hf
  obtain ⟨rfl, halike⟩ := hco hr hr' hp hp'
  rw [denotes_unique_of_alike halike hss hss']

/-- Every entry is the finished component of a reference with the property, and all that it refers
to is there. -/
def Built (c : Catalog) (P : Reference → Prop) (g : Registry) : Prop :=
  ∀ k e, g.get? k = some e → Finished c P g k e

theorem built_empty : Built c P .empty := by
  intro k e he
  cases he

theorem Built.of_adds (hg : Built c P g) (hle : g ≤ g') (hadds : AddsFinished c P g g') :
    Built c P g' := by
  intro k e he
  rcases Registry.get?_or_of_le hle he with hf | hk
  · exact (hg k e hf).mono fun _ => Registry.keys_of_le hle
  · exact hadds k e he hk

/-- A built registry holds with a component all that the properties of any reference to it refer
to. -/
theorem Built.followedBy (hb : Built c P b) (hco : c.Coherent P) (g : Registry) :
    g.FollowedBy c P {k | k ∈ b.keys} := by
  intro r key ps rs ss hr hp hss _ hkey
  obtain ⟨e, hget⟩ := Registry.mem_keys.mp hkey
  obtain ⟨r', ps', rs', ss', hr', hp', hss', hrefs, -⟩ := hb key e hget
  obtain ⟨-, halike⟩ := hco hr hr' hp hp'
  obtain rfl := denotes_unique_of_alike halike hss hss'
  exact hrefs

/-! ## Lock-step -/

/-- The registry `h` holds what the built registry `b` holds, and elsewhere what `g` does. -/
structure Beside (b g h : Registry) : Prop where
  built : ∀ k ∈ b.keys, h.get? k = b.get? k
  other : ∀ k ∉ b.keys, h.get? k = g.get? k

namespace Beside

theorem empty (b : Registry) : Beside b .empty b where
  built _ _ := rfl
  other _ hk := Registry.not_mem_keys.mp hk

theorem mem_keys (hh : Beside b g h) : k ∈ h.keys ↔ k ∈ b.keys ∨ k ∈ g.keys := by
  by_cases hk : k ∈ b.keys
  · rw [Registry.mem_keys, hh.built k hk, ← Registry.mem_keys]
    simp [hk]
  · rw [Registry.mem_keys, hh.other k hk, ← Registry.mem_keys]
    simp [hk]

theorem put (hh : Beside b g h) (hkey : key ∉ b.keys) (e : Entry) :
    Beside b (g.put key e) (h.put key e) where
  built k hk := by
    have hne : k ≠ key := fun heq => hkey (heq ▸ hk)
    rw [Registry.get?_put, if_neg hne, hh.built k hk]
  other k hk := by rw [Registry.get?_put, Registry.get?_put, hh.other k hk]

/-- Adding keys of the built registry to the first changes nothing beside. -/
theorem of_covered (hh : Beside b g h) (hle : g ≤ g')
    (hcovered : ∀ k ∈ g'.keys, k ∈ g.keys ∨ k ∈ b.keys) : Beside b g' h where
  built := hh.built
  other k hk := by
    rw [hh.other k hk]
    by_cases hkg : k ∈ g.keys
    · obtain ⟨e, he⟩ := Registry.mem_keys.mp hkg
      rw [he, Registry.get?_of_le hle he]
    · have hkg' : k ∉ g'.keys := fun h => (hcovered k h).elim hkg hk
      rw [Registry.not_mem_keys.mp hkg, Registry.not_mem_keys.mp hkg']

end Beside

theorem each_beside {node : Reference → Registry → Outcome Schema}
    (hnode : ∀ {r g s g' h}, P r → node r g = (.ok s, g') → Beside b g h →
      ∃ h', node r h = (.ok s, h') ∧ Beside b g' h')
    (hP : ∀ r ∈ rs, P r) (he : each node rs g = (.ok ss, g')) (hh : Beside b g h) :
    ∃ h', each node rs h = (.ok ss, h') ∧ Beside b g' h' := by
  induction rs generalizing g h ss with
  | nil =>
    cases he
    exact ⟨h, rfl, hh⟩
  | cons r rs ih =>
    obtain ⟨s, g₁, ss, hs, hmore, rfl⟩ := each_cons_eq_ok.mp he
    rw [List.forall_mem_cons] at hP
    obtain ⟨h₁, hs', hh₁⟩ := hnode hP.1 hs hh
    obtain ⟨h', hmore', hh'⟩ := ih hP.2 hmore hh₁
    exact ⟨h', each_cons_eq_ok.mpr ⟨s, h₁, ss, hs', hmore', rfl⟩, hh'⟩

/-- A compilation that succeeds on a registry does the same beside a built one. -/
theorem node_beside (hP : c.Preserves P) (hco : c.Coherent P) (hb : Built c P b) (hr : P r)
    (hn : node c limit n r g = (.ok s, g')) (hh : Beside b g h) :
    ∃ h', node c limit n r h = (.ok s, h') ∧ Beside b g' h' := by
  induction n generalizing r g h s g' with
  | zero => cases hn
  | succ n ih =>
    rw [node_succ]
    cases node_ok hn with
    | inline hp => rw [hp]; exact ⟨h, rfl, hh⟩
    | layer hp hinner =>
      obtain ⟨h', hinner', hh'⟩ := ih (hP hp hr _ List.mem_cons_self) hinner hh
      rw [hp]
      exact ⟨h', by simp [ofPlan, hinner'], hh'⟩
    | hit hp hk =>
      rw [hp]
      exact ⟨h, by simp [ofPlan, hh.mem_keys, hk], hh⟩
    | @fresh key ps rs ss g₁ hp hk he =>
      rw [hp]
      by_cases hkey : key ∈ b.keys
      · -- the second run stops here; the first adds nothing that is not there
        have hrefs : ∀ k ∈ (Schema.ref key).refs, k ∈ b.keys := by simpa [Schema.refs] using hkey
        have hle : g ≤ g₁.finalize key (body ps ss) := by
          have hle := node_le c limit (n + 1) r g
          rwa [hn] at hle
        refine ⟨h, by simp [ofPlan, hh.mem_keys, hkey], ?_⟩
        exact hh.of_covered hle (node_covered hP hr hn (hb.followedBy hco _) hrefs)
      · have hnode : ∀ {r g s g' h}, P r → node c limit n r g = (.ok s, g') → Beside b g h →
            ∃ h', node c limit n r h = (.ok s, h') ∧ Beside b g' h' :=
          fun hr hn hh => ih hr hn hh
        obtain ⟨h₁, he', hh₁⟩ : ∃ h₁, each (node c limit n) rs (h.put key .pending) =
            (.ok ss, h₁) ∧ Beside b g₁ h₁ :=
          each_beside hnode (hP hp hr) he (hh.put hkey .pending)
        have hk' : key ∉ h.keys := fun h => (hh.mem_keys.mp h).elim hkey hk
        exact ⟨h₁.finalize key (body ps ss), by simp [ofPlan, hk', he'], hh₁.put hkey _⟩

end Compile
end SchemaGraph
