import SchemaGraph.Proofs.Compile.Denotation
import SchemaGraph.Proofs.Identity
import SchemaGraph.Proofs.Key

/-! # Which references share a component

A component is registered under the encoded identity of its reference. Two references of decoded
tokens that are registered under one key are the same up to the names of their types, unless they
come upon types whose full names differ in the writing of an arity only. -/

namespace SchemaGraph
namespace Catalog

open Reference (Rel)

variable {c : Catalog} {r r' : Reference} {rs rs' : List Reference} {key : String}
  {ps ps' : List Property} {tokens tokens' : List String} {g g' h h' : Registry}

theorem plan_named_eq_ok {name : String} {p : Plan} :
    c.plan (.named name rs) = .ok p ↔
      ∃ d, c.resolve name = .ok d ∧ d.parameters.length = rs.length ∧
        c.PlanOk d rs (.ofLists d.parameters rs) p := by
  rw [plan]
  simp only [← resolveIn_eq_ok (r := .named name rs), ← planOf_eq_ok]
  cases c.resolveIn (.named name rs) name with
  | error e => simp [bind, Except.bind]
  | ok d =>
    change Except.bind (d.bind rs) _ = _ ↔ _
    rw [Descriptor.bind]
    split <;> simp [Except.bind, *]

/-- The key of a component is the encoded identity of its reference. -/
theorem identity_of_plan (h : c.plan r = .ok (.component key ps rs)) :
    ∃ s, c.identity r = .ok s ∧ key = Key.encode s := by
  cases r with
  | array element => cases h
  | named name arguments =>
    obtain ⟨d, hd, -, hp⟩ := plan_named_eq_ok.mp h
    cases hp with
    | object hkind hs =>
      refine ⟨_, ?_, rfl⟩
      rw [identity, resolveIn_eq_ok.mpr hd]
      exact hs

/-- References of one component are the same up to names, unless types in them clash. -/
theorem Lawful.rel_of_plan (hc : c.Lawful) (hr : r.Spelled) (hr' : r'.Spelled)
    (hclash : ¬ c.Clash r r') (hp : c.plan r = .ok (.component key ps rs))
    (hp' : c.plan r' = .ok (.component key ps' rs')) : Rel c.SameType r r' := by
  obtain ⟨s, hs, rfl⟩ := identity_of_plan hp
  obtain ⟨s', hs', hkey⟩ := identity_of_plan hp'
  obtain rfl := Key.encode_inj.mp hkey
  exact hc.rel_of_identity_eq hr hr' hclash hs hs'

/-- A reference that compiles to a referred component is planned as that component. -/
theorem plan_of_compileTokens (hr : Reference.decode tokens = .ok (some r))
    (h : c.compileTokens tokens g = (.ok (some (.ref key)), g')) :
    ∃ ps rs, c.plan r = .ok (.component key ps rs) := by
  rcases compileTokens_eq_ok.mp h with ⟨hnone, -, -⟩ | ⟨q, s, hq, hcompile, hs⟩
  · rw [hr] at hnone
    cases hnone
  · rw [hr] at hq
    cases hq
    cases hs
    exact (compile_spec_true hcompile).denotes.plan_of_ref

/-- Token lists that compile to the same component spell references of the same shape with the
same types at every position, or come upon types whose full names clash. -/
theorem rel_or_clash_of_ref_eq (hc : c.Reachable) (hr : Reference.decode tokens = .ok (some r))
    (hr' : Reference.decode tokens' = .ok (some r'))
    (hcompile : c.compileTokens tokens g = (.ok (some (.ref key)), g'))
    (hcompile' : c.compileTokens tokens' h = (.ok (some (.ref key)), h')) :
    Rel c.SameType r r' ∨ c.Clash r r' := by
  obtain ⟨ps, rs, hp⟩ := plan_of_compileTokens hr hcompile
  obtain ⟨ps', rs', hp'⟩ := plan_of_compileTokens hr' hcompile'
  by_cases hclash : c.Clash r r'
  · exact .inr hclash
  · have hs := Reference.spelled_of_decode hr
    have hs' := Reference.spelled_of_decode hr'
    exact .inl (hc.lawful.rel_of_plan hs hs' hclash hp hp')

/-- A page of items, beside the built-in types. -/
def pageTypes : Catalog :=
  (builtin.insertAll [
    ⟨"Page`1", ["T"], .object [{ name := "Items", type := .array (.leaf "T") }]⟩]).2

/-- Two spellings of one page, compiled one after the other. -/
theorem rel_or_clash_pageTypes :
    let key := "Page-3C-System.Int32-3E-"
    let g := (pageTypes.compileTokens ["Page`1", "int"] .empty).2
    pageTypes.compileTokens ["Page`1", "int"] .empty = (.ok (some (.ref key)), g) ∧
      pageTypes.compileTokens ["Page`1", "System.Int32"] g = (.ok (some (.ref key)), g) ∧
      let r := Reference.named "Page`1" [.leaf "int"]
      let r' := Reference.named "Page`1" [.leaf "System.Int32"]
      Rel pageTypes.SameType r r' ∨ pageTypes.Clash r r' := by
  intro key g
  have hreachable : pageTypes.Reachable := Reachable.builtin.insertAll _
  have hcompile : pageTypes.compileTokens ["Page`1", "int"] .empty =
      (.ok (some (.ref key)), g) := rfl
  have hcompile' : pageTypes.compileTokens ["Page`1", "System.Int32"] g =
      (.ok (some (.ref key)), g) := rfl
  exact ⟨hcompile, hcompile', rel_or_clash_of_ref_eq hreachable rfl rfl hcompile hcompile'⟩

/-- Beside the built-in types, two types of one name that declare no parameters, one of them by a
suffix. -/
def zeroSuffixTypes : Catalog :=
  (builtin.insertAll [
    ⟨"Foo", [], .object [{ name := "A", type := .leaf "int" }]⟩,
    ⟨"Foo`0", [], .object [{ name := "B", type := .leaf "string" }]⟩]).2

/-- Full names that clash: the second type is taken for the first. -/
theorem zeroSuffixTypes_share_component :
    zeroSuffixTypes.Reachable ∧
      Reference.decode ["Foo"] = .ok (some (.leaf "Foo")) ∧
      Reference.decode ["Foo`0"] = .ok (some (.leaf "Foo`0")) ∧
      let g := (zeroSuffixTypes.compileTokens ["Foo"] .empty).2
      zeroSuffixTypes.compileTokens ["Foo"] .empty = (.ok (some (.ref "Foo")), g) ∧
      zeroSuffixTypes.compileTokens ["Foo`0"] g = (.ok (some (.ref "Foo")), g) ∧
      ¬ Rel zeroSuffixTypes.SameType (.leaf "Foo") (.leaf "Foo`0") := by
  refine ⟨Reachable.builtin.insertAll _, rfl, rfl, rfl, rfl, fun h => ?_⟩
  obtain ⟨⟨d, hd, hd'⟩, -⟩ := Reference.rel_named_iff.mp h
  have hname : Except.map Descriptor.name (zeroSuffixTypes.resolve "Foo") = .ok "Foo" := rfl
  have hname' : Except.map Descriptor.name (zeroSuffixTypes.resolve "Foo`0") = .ok "Foo`0" := rfl
  rw [hd] at hname
  rw [hd', hname] at hname'
  exact absurd (Except.ok.inj hname') (by decide)

end Catalog
end SchemaGraph
