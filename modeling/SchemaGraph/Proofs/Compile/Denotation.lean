import SchemaGraph.Proofs.Compile.Atomicity
import SchemaGraph.Proofs.Compile.Component

/-! # What references denote

Compilation threads a registry through its recursion, stops at keys that are already there and
builds components while others are half built. None of this can be seen in what it returns: a
compiled node is the schema that its reference denotes (`Denotes`), which does not mention a
registry, and every entry that the compilation added is the finished component of some reference,
with all that it refers to in place (`node_spec`). -/

namespace SchemaGraph

/-- The references that a plan leaves to be compiled. -/
def Plan.references : Plan → List Reference
  | .inline _ => []
  | .layer _ inner => [inner]
  | .component _ _ rs => rs

/-- What holds of a reference holds of the references in its plan. -/
def Catalog.Preserves (c : Catalog) (P : Reference → Prop) : Prop :=
  ∀ {r p}, c.plan r = .ok p → P r → ∀ q ∈ p.references, P q

theorem Catalog.preserves_true (c : Catalog) : c.Preserves fun _ => True :=
  fun _ _ _ _ => trivial

/-- The schema node of a reference. An object type is referred to, whatever its properties. -/
inductive Denotes (c : Catalog) : Reference → Schema → Prop
  | inline {r : Reference} {i : Inline} (hp : c.plan r = .ok (.inline i)) : Denotes c r i.schema
  | layer {r inner : Reference} {l : Layer} {s : Schema} (hp : c.plan r = .ok (.layer l inner))
      (hs : Denotes c inner s) : Denotes c r (l.schema s)
  | component {r : Reference} {key : String} {ps : List Property} {rs : List Reference}
      (hp : c.plan r = .ok (.component key ps rs)) : Denotes c r (.ref key)

theorem Denotes.unique {c : Catalog} {r : Reference} {s t : Schema} (hs : Denotes c r s)
    (ht : Denotes c r t) : s = t := by
  induction hs generalizing t with
  | inline hp => cases ht <;> simp_all
  | layer hp _ ih =>
    cases ht with
    | inline hq => simp_all
    | layer hq hi =>
      rw [hp] at hq
      cases hq
      rw [ih hi]
    | component hq => simp_all
  | component hp => cases ht <;> simp_all

/-- Only components are referred to. -/
theorem Denotes.plan_of_ref {c : Catalog} {r : Reference} {key : String}
    (h : Denotes c r (.ref key)) : ∃ ps rs, c.plan r = .ok (.component key ps rs) := by
  generalize hs : Schema.ref key = s at h
  cases h with
  | @inline _ i hp => cases i <;> cases hs
  | @layer _ _ l _ hp => cases l <;> cases hs
  | component hp => cases hs; exact ⟨_, _, hp⟩

namespace Compile

variable {c : Catalog} {P : Reference → Prop} {limit n : Nat} {r : Reference}
  {rs : List Reference} {g g' h : Registry} {s : Schema} {ss : List Schema} {key k : String}
  {e : Entry}

/-! ## Finished components -/

/-- The entry is the finished component of a reference for which `P` holds, and all that its
properties refer to is in the registry. -/
def Finished (c : Catalog) (P : Reference → Prop) (g : Registry) (key : String) (e : Entry) :
    Prop :=
  ∃ r ps rs ss, P r ∧ c.plan r = .ok (.component key ps rs) ∧ List.Forall₂ (Denotes c) rs ss ∧
    (∀ s ∈ ss, ∀ k ∈ s.refs, k ∈ g.keys) ∧ e = .ready (body ps ss)

theorem Finished.mono (hf : Finished c P g key e) (hgh : ∀ k ∈ g.keys, k ∈ h.keys) :
    Finished c P h key e := by
  obtain ⟨r, ps, rs, ss, hr, hp, hrs, hss, rfl⟩ := hf
  exact ⟨r, ps, rs, ss, hr, hp, hrs, fun s hs k hk => hgh k (hss s hs k hk), rfl⟩

theorem Finished.ready (hf : Finished c P g key e) :
    ∃ s, e = .ready s ∧ ∀ k ∈ s.refs, k ∈ g.keys := by
  obtain ⟨r, ps, rs, ss, -, -, -, hss, rfl⟩ := hf
  refine ⟨_, rfl, fun k hk => ?_⟩
  obtain ⟨s, hs, hk⟩ := mem_refs_body hk
  exact hss s hs k hk

/-- The entries of the second registry under keys that the first does not have are finished. -/
def AddsFinished (c : Catalog) (P : Reference → Prop) (g g' : Registry) : Prop :=
  ∀ k e, g'.get? k = some e → k ∉ g.keys → Finished c P g' k e

theorem AddsFinished.refl : AddsFinished c P g g :=
  fun _ _ he hk => absurd (Registry.mem_keys.mpr ⟨_, he⟩) hk

theorem AddsFinished.trans (hgg' : AddsFinished c P g g') (hg'h : AddsFinished c P g' h)
    (hle : g' ≤ h) : AddsFinished c P g h := by
  intro k e he hk
  rcases Registry.get?_or_of_le hle he with he' | hk'
  · exact (hgg' k e he' hk).mono fun _ => Registry.keys_of_le hle
  · exact hg'h k e he hk'

/-! ## The specification of compilation -/

/-- What a successful compilation of a reference returns and leaves. -/
structure NodeSpec (c : Catalog) (P : Reference → Prop) (r : Reference) (g : Registry)
    (s : Schema) (g' : Registry) : Prop where
  le : g ≤ g'
  denotes : Denotes c r s
  refs : ∀ k ∈ s.refs, k ∈ g'.keys
  adds : AddsFinished c P g g'

theorem each_spec {node : Reference → Registry → Outcome Schema}
    (hnode : ∀ {r g s g'}, P r → node r g = (.ok s, g') → NodeSpec c P r g s g')
    (hP : ∀ r ∈ rs, P r) (he : each node rs g = (.ok ss, g')) :
    g ≤ g' ∧ List.Forall₂ (Denotes c) rs ss ∧ (∀ s ∈ ss, ∀ k ∈ s.refs, k ∈ g'.keys) ∧
      AddsFinished c P g g' := by
  induction rs generalizing g ss with
  | nil =>
    cases he
    exact ⟨le_refl _, .nil, by simp, .refl⟩
  | cons r rs ih =>
    obtain ⟨s, g₁, ss, hs, hss, rfl⟩ := each_cons_eq_ok.mp he
    have h₁ := hnode (hP r List.mem_cons_self) hs
    obtain ⟨hle, hden, hrefs, hadds⟩ := ih (fun q hq => hP q (List.mem_cons_of_mem _ hq)) hss
    refine ⟨h₁.le.trans hle, .cons h₁.denotes hden, ?_, h₁.adds.trans hadds hle⟩
    rintro t ht k hk
    rcases List.mem_cons.mp ht with rfl | ht
    · exact Registry.keys_of_le hle (h₁.refs k hk)
    · exact hrefs t ht k hk

/-- A compiled node is what its reference denotes, and it and all that was added refer only to
keys that are there. -/
theorem node_spec (hP : c.Preserves P) (hr : P r) (hn : node c limit n r g = (.ok s, g')) :
    NodeSpec c P r g s g' := by
  induction n generalizing r g s g' with
  | zero => cases hn
  | succ n ih =>
    cases node_ok hn with
    | inline hp => exact ⟨le_refl _, .inline hp, by simp, .refl⟩
    | layer hp hn =>
      have h := ih (hP hp hr _ List.mem_cons_self) hn
      exact ⟨h.le, .layer hp h.denotes, by simpa using h.refs, h.adds⟩
    | hit hp hk =>
      exact ⟨le_refl _, .component hp, by simpa [Schema.refs] using hk, .refl⟩
    | @fresh key ps rs ss g₁ hp hk he =>
      obtain ⟨hle, hden, hrefs, hadds⟩ := each_spec ih (hP hp hr) he
      have hkeys : ∀ k ∈ g₁.keys, k ∈ (g₁.finalize key (body ps ss)).keys :=
        fun k hk => Registry.mem_keys_finalize.mpr (.inr hk)
      refine ⟨Registry.le_finalize hk ((Registry.le_put hk).trans hle), .component hp, ?_, ?_⟩
      · simp [Schema.refs, Registry.mem_keys_finalize]
      · intro k e he hkg
        rw [Registry.get?_finalize] at he
        split at he
        · next hkk =>
          cases he; subst hkk
          exact ⟨r, ps, rs, ss, hr, hp, hden, fun s hs k hk => hkeys k (hrefs s hs k hk), rfl⟩
        · next hkk =>
          have hnew : k ∉ (g.put key .pending).keys := by
            rw [Registry.mem_keys_put]
            exact fun h => h.elim hkk hkg
          exact (hadds k e he hnew).mono hkeys

/-- References that are compiled in turn give what they denote. -/
theorem denotes_of_each (he : each (node c limit n) rs g = (.ok ss, g')) :
    List.Forall₂ (Denotes c) rs ss :=
  (each_spec (fun hr hn => node_spec c.preserves_true hr hn) (fun _ _ => trivial) he).2.1

end Compile

namespace Catalog

variable {c : Catalog} {P : Reference → Prop} {r : Reference} {g g' : Registry} {s : Schema}

theorem compile_spec (hP : c.Preserves P) (hr : P r) (h : c.compile r g = (.ok s, g')) :
    Compile.NodeSpec c P r g s g' := Compile.node_spec hP hr (compile_eq_ok.mp h)

/-- The specification without any property of references. -/
theorem compile_spec_true (h : c.compile r g = (.ok s, g')) :
    Compile.NodeSpec c (fun _ => True) r g s g' :=
  compile_spec c.preserves_true trivial h

end Catalog
end SchemaGraph
