import SchemaGraph.Proofs.Compile.Arity
import SchemaGraph.Proofs.Compile.Order
import SchemaGraph.Proofs.Compile.Refinement

/-! # Keys are legal

A full name may be any text, so nothing may be left of it without its suffix. But a type takes part
in a compilation only if a name in a token is found in its full name, and the base of this name
remains. So identities are not empty, and every key that calls leave in a registry is legal and read
back as the identity of a reference to an object type. -/

namespace SchemaGraph
namespace Catalog

open Reference (Occurs)

variable {c : Catalog} {r : Reference} {rs : List Reference} {s t key : String}
  {ps : List Property} {cs : List Char}

/-- Every name in the reference stands for a type, so no parameter is left in it. -/
def IsClosed (c : Catalog) (r : Reference) : Prop :=
  ∀ name, Occurs name r → ∃ d, c.resolve name = .ok d

/-- The reference is to an object type, with as many arguments as this has parameters. -/
def IsObject (c : Catalog) (r : Reference) : Prop :=
  ∃ name arguments d ps, r = .named name arguments ∧ c.resolve name = .ok d ∧
    d.kind = .object ps ∧ d.parameters.length = arguments.length

/-! ## Identities -/

theorem identity_of_mem_more (h : c.identityMore rs = .ok t) (hr : r ∈ rs) :
    ∃ s, c.identity r = .ok s := by
  induction rs generalizing t with
  | nil => cases hr
  | cons q rs ih =>
    obtain ⟨s, u, hs, hu, -⟩ := identityMore_cons_eq_ok.mp h
    rcases List.mem_cons.mp hr with rfl | hr
    · exact ⟨s, hs⟩
    · exact ih hu hr

theorem identity_of_mem_arguments (h : c.identityArguments rs = .ok t) (hr : r ∈ rs) :
    ∃ s, c.identity r = .ok s := by
  cases rs with
  | nil => cases hr
  | cons q rs =>
    obtain ⟨s, u, hs, hu, -⟩ := identityArguments_cons_eq_ok.mp h
    rcases List.mem_cons.mp hr with rfl | hr
    · exact ⟨s, hs⟩
    · exact identity_of_mem_more hu hr

/-- A reference that has an identity is closed. -/
theorem isClosed_of_identity (h : c.identity r = .ok s) : c.IsClosed r := by
  intro name hname
  induction hname generalizing s with
  | here =>
    obtain ⟨d, t, hd, -, -⟩ := identity_named_eq_ok.mp h
    exact ⟨d, hd⟩
  | argument hr _ ih =>
    obtain ⟨d, t, -, ht, -⟩ := identity_named_eq_ok.mp h
    obtain ⟨u, hu⟩ := identity_of_mem_arguments ht hr
    exact ih hu
  | element _ ih =>
    obtain ⟨t, ht, -⟩ := identity_array_eq_ok.mp h
    exact ih ht

/-- The text of an identity holds a base or a bracket. -/
theorem Text.ne_nil (h : c.Text r cs) : cs ≠ [] := by
  cases h with
  | leaf _ hf => exact List.append_ne_nil_of_right_ne_nil _ hf.isBase.1
  | generic => exact List.append_ne_nil_of_right_ne_nil _ (List.cons_ne_nil _ _)
  | array => exact List.append_ne_nil_of_right_ne_nil _ (List.cons_ne_nil _ _)

theorem Lawful.identity_ne_empty (hc : c.Lawful) (hr : r.Spelled) (h : c.identity r = .ok s) :
    s ≠ "" := by
  intro hs
  subst hs
  exact (hc.text hr h).ne_nil String.toList_empty

/-! ## Components -/

theorem isObject_of_plan (h : c.plan r = .ok (.component key ps rs)) : c.IsObject r := by
  cases r with
  | array element => cases h
  | named name arguments =>
    obtain ⟨d, hd, hlength, hp⟩ := plan_named_eq_ok.mp h
    cases hp with
    | object hkind => exact ⟨name, arguments, d, ps, rfl, hd, hkind, hlength⟩

/-- The key of a component is legal and read back as the identity of its reference. -/
theorem Lawful.isLegal_of_plan (hc : c.Lawful) (hr : r.Spelled)
    (h : c.plan r = .ok (.component key ps rs)) :
    Key.isLegal key = true ∧ ∃ s, c.identity r = .ok s ∧ Key.decode key = some s := by
  obtain ⟨s, hs, rfl⟩ := identity_of_plan h
  have hne : s ≠ "" := hc.identity_ne_empty hr hs
  exact ⟨Key.isLegal_encode.mpr hne, s, hs, Key.decode_encode s⟩

/-- Calls leave nothing but finished components of spelled references. -/
theorem built_calls (hc : c.Loaded) (tss : List (List String)) :
    Compile.Built c Reference.Spelled (c.calls (tss.map .tokens) .empty).2 := by
  have hstep : ∀ {k r s g g'}, k ∈ tss.map Call.tokens → k.Compiles r →
      c.compile r g = (.ok s, g') → Compile.Built c Reference.Spelled g →
        Compile.Built c Reference.Spelled g' := by
    intro k r s g g' hk hr hs hg
    obtain ⟨tokens, -, rfl⟩ := List.mem_map.mp hk
    exact built_compile hc.spelled.preserves hg (Reference.spelled_of_decode hr) hs
  exact @calls_induction c (tss.map .tokens) .empty (fun g _ => Compile.Built c Reference.Spelled g)
    (fun hk hr hs hg => hstep hk hr hs hg) [] Compile.built_empty

/-- In a loaded catalog every key that calls leave is legal, is the key of a closed reference to an
object type and is read back as its identity. A token list that compiles to a referred component
compiles to the one under the key of the reference that it spells. -/
theorem calls_keys_legal (hc : c.Loaded) (tss : List (List String)) :
    (∀ key ∈ (c.calls (tss.map .tokens) .empty).2.keys, Key.isLegal key = true ∧
      ∃ r s, c.IsClosed r ∧ c.IsObject r ∧ c.registryKey r = .ok key ∧ c.identity r = .ok s ∧
        Key.decode key = some s) ∧
    ∀ tokens g g' key, c.compileTokens tokens g = (.ok (some (.ref key)), g') →
      ∃ r, Reference.decode tokens = .ok (some r) ∧ c.registryKey r = .ok key := by
  constructor
  · intro key hkey
    obtain ⟨e, he⟩ := Registry.mem_keys.mp hkey
    obtain ⟨r, ps, rs, ss, hr, hp, -⟩ := built_calls hc tss key e he
    obtain ⟨hlegal, s, hs, hdecode⟩ := hc.reachable.lawful.isLegal_of_plan hr hp
    have hkey : c.registryKey r = .ok key := registryKey_of_plan hp
    exact ⟨hlegal, r, s, isClosed_of_identity hs, isObject_of_plan hp, hkey, hs, hdecode⟩
  · intro tokens g g' key h
    rcases compileTokens_eq_ok.mp h with ⟨-, hnone, -⟩ | ⟨r, s, hr, -, -⟩
    · cases hnone
    · obtain ⟨ps, rs, hp⟩ := plan_of_compileTokens hr h
      exact ⟨r, hr, registryKey_of_plan hp⟩

/-- A call that compiles a box of lids, and one that fails. -/
theorem calls_keys_legal_boxText :
    let c := (empty.load .json "boxes" boxText).2
    let g := (c.calls [.tokens ["Box`1", "Lid"], .tokens ["Box`1"]] .empty).2
    let key := "Shop.Box-3C-Shop.Box-2B-Lid-3E-"
    g.keys = [key] ∧ Key.isLegal key = true ∧
      ∃ r s, c.IsClosed r ∧ c.IsObject r ∧ c.registryKey r = .ok key ∧ c.identity r = .ok s ∧
        Key.decode key = some s := by
  have hloaded : (empty.load .json "boxes" boxText).2.Loaded := .load .empty ..
  have hkeys : ((empty.load .json "boxes" boxText).2.calls
      [.tokens ["Box`1", "Lid"], .tokens ["Box`1"]] .empty).2.keys =
        ["Shop.Box-3C-Shop.Box-2B-Lid-3E-"] := by
    decide +kernel
  have hlegal := (calls_keys_legal hloaded [["Box`1", "Lid"], ["Box`1"]]).1
  refine ⟨hkeys, hlegal _ ?_⟩
  exact hkeys ▸ List.mem_singleton_self _

end Catalog
end SchemaGraph
