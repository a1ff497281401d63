import SchemaGraph.Proofs.Catalog.Convention
import SchemaGraph.Proofs.Compile.Closure
import SchemaGraph.Proofs.Compile.Simulation

/-! # The order of calls

In a loaded catalog with conventional names every key stands for one component. So a call on a
registry that earlier calls have filled returns what it returns by itself, and leaves the union of
this registry and of what it leaves by itself. The union knows no order. -/

namespace SchemaGraph
namespace Catalog

variable {c : Catalog} {P : Reference → Prop} {r : Reference} {s : Schema} {g h b : Registry}
  {tokens : List String} {tss : List (List String)}

theorem coherent_spelled (hc : c.Lawful) (hconv : c.Conventional) :
    c.Coherent Reference.Spelled := by
  intro r r' key ps ps' rs rs' hr hr' hp hp'
  have hclash : ¬ c.Clash r r' := by
    rintro ⟨n, m, d, e, -, -, hn, hm, h⟩
    have hd := hconv d (resolve_eq_ok hn).1
    have he := hconv e (resolve_eq_ok hm).1
    exact h.elim (hd.not_clash he) (he.not_clash hd)
  have halike := alike_of_sameType (hc.rel_of_plan hr hr' hclash hp hp')
  obtain ⟨p, hq, hpq⟩ := plan_alike halike hp
  rw [hp'] at hq
  cases hq
  cases hpq with
  | component _ _ hrs => exact ⟨rfl, hrs⟩

/-! ## One call -/

theorem built_compile (hP : c.Preserves P) (hb : Compile.Built c P b) (hr : P r)
    (h : c.compile r b = (.ok s, g)) : Compile.Built c P g := by
  have hs := compile_spec hP hr h
  exact hb.of_adds hs.le hs.adds

/-- The entries of the registry are those of two others. -/
def IsUnion (g h u : Registry) : Prop :=
  ∀ k e, u.get? k = some e ↔ g.get? k = some e ∨ h.get? k = some e

/-- On a built registry a compilation returns what it returns by itself, and leaves the union. -/
theorem compile_union (hP : c.Preserves P) (hco : c.Coherent P) (hb : Compile.Built c P b)
    (hr : P r) (h : c.compile r .empty = (.ok s, g)) :
    ∃ u, c.compile r b = (.ok s, u) ∧ IsUnion b g u := by
  have hbeside := Compile.Beside.empty b
  obtain ⟨u, hu, hbeside⟩ := Compile.node_beside hP hco hb hr (compile_eq_ok.mp h) hbeside
  have hg := built_compile hP Compile.built_empty hr h
  refine ⟨u, compile_eq_ok.mpr hu, fun k e => ?_⟩
  by_cases hk : k ∈ b.keys
  · obtain ⟨f, hf⟩ := Registry.mem_keys.mp hk
    rw [hbeside.built k hk]
    refine ⟨.inl, fun he => he.elim id fun he => ?_⟩
    rw [hf, (hb k f hf).unique hco (hg k e he)]
  · rw [hbeside.other k hk, Registry.not_mem_keys.mp hk]
    simp

/-- What a token list compiles to by itself, and the registry that it leaves. -/
def alone (c : Catalog) (tokens : List String) : Answer × Registry := c.compileTokens tokens .empty

/-- The token list spells a reference with the property, which compiles by itself. -/
def Compiles (c : Catalog) (P : Reference → Prop) (tokens : List String) : Prop :=
  ∃ r s g, Reference.decode tokens = .ok (some r) ∧ P r ∧ c.compile r .empty = (.ok s, g)

theorem Compiles.built_alone (hP : c.Preserves P) (h : c.Compiles P tokens) :
    Compile.Built c P (c.alone tokens).2 := by
  obtain ⟨r, s, g, hd, hr, hs⟩ := h
  have halone : c.alone tokens = (.ok (some s), g) :=
    compileTokens_eq_ok.mpr (.inr ⟨r, s, hd, hs, rfl⟩)
  rw [halone]
  exact built_compile hP Compile.built_empty hr hs

theorem Compiles.call (hP : c.Preserves P) (hco : c.Coherent P) (hb : Compile.Built c P b)
    (h : c.Compiles P tokens) :
    ∃ u, c.call (.tokens tokens) b = ((c.alone tokens).1, u) ∧ Compile.Built c P u ∧
      IsUnion b (c.alone tokens).2 u := by
  obtain ⟨r, s, g, hd, hr, hs⟩ := h
  have halone : c.alone tokens = (.ok (some s), g) :=
    compileTokens_eq_ok.mpr (.inr ⟨r, s, hd, hs, rfl⟩)
  obtain ⟨u, hu, hunion⟩ := compile_union hP hco hb hr hs
  refine ⟨u, ?_, built_compile hP hb hr hu, by rwa [halone]⟩
  rw [halone]
  exact compileTokens_eq_ok.mpr (.inr ⟨r, s, hd, hu, rfl⟩)

/-! ## Many calls -/

/-- Calls one after another return what each returns by itself, and leave the union of what each
leaves. -/
theorem calls_union (hP : c.Preserves P) (hco : c.Coherent P) (hb : Compile.Built c P b)
    (htss : ∀ tokens ∈ tss, c.Compiles P tokens) :
    ∃ u, c.calls (tss.map .tokens) b = (tss.map fun tokens => (c.alone tokens).1, u) ∧
      ∀ k e, u.get? k = some e ↔
        b.get? k = some e ∨ ∃ tokens ∈ tss, (c.alone tokens).2.get? k = some e := by
  induction tss generalizing b with
  | nil => exact ⟨b, rfl, by simp⟩
  | cons tokens tss ih =>
    rw [List.forall_mem_cons] at htss
    obtain ⟨u₁, hcall, hu₁, hunion⟩ := htss.1.call hP hco hb
    obtain ⟨u, hcalls, hget⟩ := ih hu₁ htss.2
    refine ⟨u, by simp only [List.map_cons, calls, hcall, hcalls], fun k e => ?_⟩
    rw [hget, hunion k e, List.exists_mem_cons_iff, or_assoc]

theorem compiles_of_alone (hne : tokens ≠ []) (h : ∃ x g, c.alone tokens = (.ok x, g)) :
    c.Compiles Reference.Spelled tokens := by
  obtain ⟨x, g, h⟩ := h
  rcases compileTokens_eq_ok.mp h with ⟨hnone, -, -⟩ | ⟨r, s, hd, hs, -⟩
  · exact absurd (Reference.decode_eq_none.mp hnone) hne
  · exact ⟨r, s, g, hd, Reference.spelled_of_decode hd, hs⟩

/-- In every order calls on the empty registry leave the union of what each leaves, and no entry of
it is pending. -/
theorem calls_union_of_perm {order : List (List String)} (hP : c.Preserves P)
    (hco : c.Coherent P) (htss : ∀ tokens ∈ tss, c.Compiles P tokens) (horder : order.Perm tss) :
    ∃ g, c.calls (order.map .tokens) .empty = (order.map fun tokens => (c.alone tokens).1, g) ∧
      g.pendingKeys = [] ∧
      ∀ k e, g.get? k = some e ↔ ∃ tokens ∈ tss, (c.alone tokens).2.get? k = some e := by
  have horder' : ∀ tokens ∈ order, c.Compiles P tokens :=
    fun tokens h => htss tokens (horder.mem_iff.mp h)
  obtain ⟨g, hg, hget⟩ := calls_union hP hco Compile.built_empty horder'
  have hclosed := (closed_calls c (order.map .tokens)).1
  rw [hg] at hclosed
  refine ⟨g, hg, hclosed.pendingKeys, fun k e => ?_⟩
  rw [hget]
  simp [horder.mem_iff]

/-- The order of calls does not matter in a loaded catalog with conventional names. Token lists
that compile each by itself agree on the keys they share, and compile one after another in any
order: every call returns what it returns by itself, the registry that is left is the union of
those that each leaves by itself, and the components are the same. -/
theorem calls_perm (hc : c.Loaded) (hconv : c.Conventional)
    (hne : ∀ tokens ∈ tss, tokens ≠ []) (hok : ∀ tokens ∈ tss, ∃ x g, c.alone tokens = (.ok x, g)) :
    (∀ ts ∈ tss, ∀ us ∈ tss, ∀ k e f, (c.alone ts).2.get? k = some e →
      (c.alone us).2.get? k = some f → e = f) ∧
    ∃ components, ∀ order : List (List String), order.Perm tss →
      ∃ g, c.calls (order.map .tokens) .empty = (order.map fun tokens => (c.alone tokens).1, g) ∧
        (∀ k e, g.get? k = some e ↔ ∃ tokens ∈ tss, (c.alone tokens).2.get? k = some e) ∧
        g.components = .ok components := by
  have hP : c.Preserves Reference.Spelled := hc.spelled.preserves
  have hco : c.Coherent Reference.Spelled := coherent_spelled hc.reachable.lawful hconv
  have htss : ∀ tokens ∈ tss, c.Compiles Reference.Spelled tokens :=
    fun tokens h => compiles_of_alone (hne tokens h) (hok tokens h)
  constructor
  · intro ts hts us hus k e f he hf
    have hbuilt := (htss ts hts).built_alone hP
    have hbuilt' := (htss us hus).built_alone hP
    exact (hbuilt k e he).unique hco (hbuilt' k f hf)
  · obtain ⟨g₀, -, hpending₀, hget₀⟩ := calls_union_of_perm hP hco htss (.refl tss)
    refine ⟨componentsOf (Registry.finished g₀.entries), fun order horder => ?_⟩
    obtain ⟨g, hg, hpending, hget⟩ := calls_union_of_perm hP hco htss horder
    have hsame : ∀ k, g.get? k = g₀.get? k :=
      fun k => Option.ext fun e => (hget k e).trans (hget₀ k e).symm
    refine ⟨g, hg, hget, ?_⟩
    rw [Registry.components_congr hpending hsame, Registry.components_eq, hpending₀]

/-- Two object types, loaded from a text. -/
def linkedTypes : Catalog :=
  (empty.load .json "linked" (
    "\x7b\"types\":[\x7b\"name\":\"A\",\"kind\":\"object\"," ++
    "\"properties\":[\x7b\"name\":\"b\",\"type\":\"B\"\x7d]\x7d," ++
    "\x7b\"name\":\"B\",\"kind\":\"object\"\x7d]\x7d")).2

/-- Both orders of two calls, of which the first compiles what the second refers to. -/
theorem calls_perm_linkedTypes :
    ∃ components g g',
      linkedTypes.calls [.tokens ["A"], .tokens ["B"]] .empty =
        ([(linkedTypes.alone ["A"]).1, (linkedTypes.alone ["B"]).1], g) ∧
      linkedTypes.calls [.tokens ["B"], .tokens ["A"]] .empty =
        ([(linkedTypes.alone ["B"]).1, (linkedTypes.alone ["A"]).1], g') ∧
      g.components = .ok components ∧ g'.components = .ok components := by
  have hloaded : linkedTypes.Loaded := .load .empty ..
  obtain ⟨hnames, hcompile⟩ :
      (∀ d ∈ linkedTypes.types, (d.name, d.parameters.length) ∈ [("A", 0), ("B", 0)]) ∧
        ∀ tokens ∈ [["A"], ["B"]], (linkedTypes.alone tokens).1.isOk = true := by
    decide +kernel
  have hconv : linkedTypes.Conventional := by
    intro d hd
    have hbase : ∀ e ∈ [("A", 0), ("B", 0)], Token.IsBase e.1.toList ∧ e.2 = 0 := by decide
    obtain ⟨hname, hparameters⟩ := hbase _ (hnames d hd)
    replace hparameters : d.parameters.length = 0 := hparameters
    exact ⟨d.name.toList, hname, by rw [hparameters, aritySuffix, List.append_nil]⟩
  have hok : ∀ tokens ∈ [["A"], ["B"]], ∃ x g, linkedTypes.alone tokens = (.ok x, g) := by
    intro tokens htokens
    have hisOk := hcompile tokens htokens
    rcases h : linkedTypes.alone tokens with ⟨e | x, g⟩
    · rw [h] at hisOk; cases hisOk
    · exact ⟨x, g, rfl⟩
  obtain ⟨-, components, hall⟩ := calls_perm hloaded hconv (by decide) hok
  obtain ⟨g, hg, -, hcomponents⟩ := hall [["A"], ["B"]] (.refl _)
  obtain ⟨g', hg', -, hcomponents'⟩ := hall [["B"], ["A"]] (.swap ..)
  exact ⟨components, g, g', hg, hg', hcomponents, hcomponents'⟩

end Catalog
end SchemaGraph
