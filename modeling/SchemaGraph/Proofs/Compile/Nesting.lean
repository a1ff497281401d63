import Mathlib.Data.Finset.Card
import SchemaGraph.Proofs.Compile.Alike
import SchemaGraph.Proofs.Compile.Depth

/-! # Recursion ends at keys

The key of an object type is taken before its properties are compiled, so on the way down no key
comes twice. If types have no parameters there are no more keys than object types, and between two
of them the way leads through one reference. So the depth that is needed is bounded by the number
of object types and the height of references, however the types refer to each other. -/

namespace SchemaGraph

/-! ## Heights -/

namespace Reference

mutual

/-- The number of nodes on the longest way from the root to a leaf. -/
def height : Reference → Nat
  | .named _ arguments => heightAll arguments + 1
  | .array element => height element + 1

/-- The greatest height, 0 without any. -/
def heightAll : List Reference → Nat
  | [] => 0
  | r :: rs => max (height r) (heightAll rs)

end

variable {r : Reference} {rs : List Reference}

theorem height_pos (r : Reference) : 0 < r.height := by
  cases r <;> simp [height]

theorem height_le_heightAll (h : r ∈ rs) : r.height ≤ heightAll rs := by
  induction rs with
  | nil => cases h
  | cons q rs ih =>
    rw [heightAll]
    rcases List.mem_cons.mp h with rfl | h
    · exact Nat.le_max_left ..
    · exact (ih h).trans (Nat.le_max_right ..)

theorem height_lt_of_mem (h : r ∈ rs) (name : String) : r.height < (named name rs).height := by
  rw [height]
  exact Nat.lt_succ_of_le (height_le_heightAll h)

theorem substitute_unbound (r : Reference) : r.substitute (fun _ => none) = r := by
  induction r with
  | named name rs ih =>
    by_cases h : rs = []
    · rw [h, substitute_leaf]
      rfl
    · rw [substitute_named _ name h, List.map_congr_left ih, List.map_id']
  | array element ih => rw [substitute, ih]

end Reference

/-! ## Simple types -/

def Kind.isCollection : Kind → Bool
  | .dictionary _ | .enumerable _ => true
  | _ => false

def Kind.isObject : Kind → Bool
  | .object _ => true
  | _ => false

/-- The properties of an object type; other types have none. -/
def Kind.properties : Kind → List Property
  | .object ps => ps
  | _ => []

/-- The type has no parameters and is no collection. -/
def Descriptor.IsSimple (d : Descriptor) : Prop := d.parameters = [] ∧ d.kind.isCollection = false

namespace Catalog

/-- Beside built-in types the catalog holds simple types only. -/
def Simple (c : Catalog) : Prop := ∀ d ∈ c.types, d ∈ builtinTypes ∨ d.IsSimple

def objects (c : Catalog) : List Descriptor := c.types.filter fun d => d.kind.isObject

/-- The references of properties are at most this high. -/
def PropertiesWithin (c : Catalog) (h : Nat) : Prop :=
  ∀ d ∈ c.types, ∀ p ∈ d.kind.properties, p.type.height ≤ h

instance (c : Catalog) (h : Nat) : Decidable (c.PropertiesWithin h) :=
  inferInstanceAs (Decidable (∀ d ∈ c.types, ∀ p ∈ d.kind.properties, p.type.height ≤ h))

/-- The keys of object types that take no arguments. -/
def objectKeys (c : Catalog) : Finset String :=
  (c.objects.map fun d => Key.encode (stripArity d.name)).toFinset

theorem card_objectKeys_le (c : Catalog) : c.objectKeys.card ≤ c.objects.length := by
  have hle := List.toFinset_card_le (c.objects.map fun d => Key.encode (stripArity d.name))
  rwa [List.length_map] at hle

end Catalog

/-- What a plan leaves to be compiled: a layer is around a reference less high than `n`, and a
component has one of the keys and properties with references at most `h` high. -/
def Plan.Within (keys : Finset String) (n h : Nat) : Plan → Prop
  | .inline _ => True
  | .layer _ inner => inner.height < n
  | .component key _ rs => key ∈ keys ∧ ∀ r ∈ rs, r.height ≤ h

namespace Catalog

variable {c : Catalog} {d : Descriptor} {name : String} {r : Reference} {rs : List Reference}
  {p : Plan} {keys : Finset String} {h : Nat}

/-- The collections among the built-in types take one of their arguments as item or value. -/
theorem within_of_builtin (hd : d ∈ builtinTypes) (hlength : d.parameters.length = rs.length)
    (hp : c.PlanOk d rs (.ofLists d.parameters rs) p) :
    p.Within keys (Reference.named name rs).height h := by
  simp only [builtinTypes, List.mem_append, List.mem_map] at hd
  obtain (⟨q, -, rfl⟩ | ⟨n, -, rfl⟩) | ⟨n, -, rfl⟩ := hd
  · cases hp with
    | primitive => trivial
    | _ hkind => cases hkind
  · cases hp with
    | enumerable hkind =>
      cases hkind
      obtain ⟨r, rfl⟩ := List.length_eq_one_iff.mp hlength.symm
      exact Reference.height_lt_of_mem (List.mem_singleton_self r) name
    | _ hkind => cases hkind
  · cases hp with
    | dictionary hkind =>
      cases hkind
      obtain ⟨r, s, rfl⟩ := List.length_eq_two.mp hlength.symm
      have hs : s ∈ [r, s] := List.mem_cons_of_mem r (List.mem_singleton_self s)
      exact Reference.height_lt_of_mem hs name
    | _ hkind => cases hkind

theorem identityOf_nil (c : Catalog) (d : Descriptor) :
    c.identityOf d [] = .ok (stripArity d.name) := congrArg Except.ok String.append_empty

/-- A simple type takes no arguments, so its name alone makes its key and its properties are typed
as they are declared. -/
theorem within_of_isSimple (hd : d.IsSimple) (hmem : d ∈ c.types) (hh : c.PropertiesWithin h)
    (hlength : d.parameters.length = rs.length)
    (hp : c.PlanOk d rs (.ofLists d.parameters rs) p) {n : Nat} :
    p.Within c.objectKeys n h := by
  obtain ⟨hparameters, hkind⟩ := hd
  rw [hparameters] at hlength hp
  obtain rfl : rs = [] := List.length_eq_zero_iff.mp hlength.symm
  cases hp with
  | primitive => trivial
  | enumeration => trivial
  | dictionary hd => rw [hd] at hkind; cases hkind
  | enumerable hd => rw [hd] at hkind; cases hkind
  | @object ps identity hd hidentity =>
    constructor
    · have hobject : d ∈ c.objects := List.mem_filter.mpr ⟨hmem, by rw [hd]; rfl⟩
      rw [identityOf_nil] at hidentity
      cases hidentity
      rw [objectKeys, List.mem_toFinset]
      exact List.mem_map_of_mem hobject
    · intro q hq
      obtain ⟨property, hproperty, rfl⟩ := List.mem_map.mp hq
      -- no parameters bind nothing
      have hunbound : property.type.substitute (.ofLists [] []) = property.type :=
        property.type.substitute_unbound
      rw [hunbound]
      exact hh d hmem property (by rw [hd]; exact hproperty)

theorem plan_within (hc : c.Simple) (hh : c.PropertiesWithin h) (hp : c.plan r = .ok p) :
    p.Within c.objectKeys r.height h := by
  cases r with
  | array element =>
    cases hp
    exact Nat.lt_succ_self _
  | named name rs =>
    obtain ⟨d, hd, hlength, hp⟩ := plan_named_eq_ok.mp hp
    have hmem : d ∈ c.types := (resolve_eq_ok hd).1
    rcases hc d hmem with hbuiltin | hsimple
    · exact within_of_builtin hbuiltin hlength hp
    · exact within_of_isSimple hsimple hmem hh hlength hp

end Catalog

/-! ## Free keys -/

namespace Registry

variable {keys : Finset String} {key : String} {g g' : Registry}

/-- The keys among some that are not taken. -/
def free (keys : Finset String) (g : Registry) : Finset String := keys \ g.keys.toFinset

theorem free_subset_of_le (h : g ≤ g') : g'.free keys ⊆ g.free keys := by
  apply Finset.sdiff_subset_sdiff (Finset.Subset.refl keys)
  intro k hk
  rw [List.mem_toFinset] at hk ⊢
  exact keys_of_le h hk

theorem card_free_put_lt (hkey : key ∈ keys) (hk : key ∉ g.keys) (e : Entry) :
    ((g.put key e).free keys).card < (g.free keys).card := by
  apply Finset.card_lt_card
  apply (Finset.ssubset_iff_of_subset (free_subset_of_le (le_put hk))).mpr
  have hfree : key ∈ g.free keys := by
    rw [free, Finset.mem_sdiff, List.mem_toFinset]
    exact ⟨hkey, hk⟩
  have htaken : key ∈ (g.put key e).keys := mem_keys_put.mpr (.inl rfl)
  refine ⟨key, hfree, ?_⟩
  rw [free, Finset.mem_sdiff, List.mem_toFinset]
  exact fun h => h.2 htaken

end Registry

/-! ## Enough depth -/

namespace Compile

variable {c : Catalog} {limit n m h : Nat} {keys : Finset String} {r : Reference} {g : Registry}
  {α β : Type}

theorem not_tooDeep_andThen {o : Outcome α} {f : α → Registry → Outcome β} (ho : ¬ TooDeep o)
    (hf : ∀ a, ¬ TooDeep (f a o.2)) : ¬ TooDeep (andThen o f) := by
  obtain ⟨e | a, g⟩ := o
  · intro ⟨written, limit, he⟩
    cases he
    exact ho ⟨written, limit, rfl⟩
  · exact hf a

section

variable {node : Reference → Registry → Outcome Schema}

theorem each_not_tooDeep (hle : ∀ r g, g ≤ (node r g).2) {rs : List Reference}
    (hnode : ∀ r ∈ rs, ∀ g', g ≤ g' → ¬ TooDeep (node r g')) : ¬ TooDeep (each node rs g) := by
  induction rs generalizing g with
  | nil => exact not_tooDeep_ok _ _
  | cons r rs ih =>
    rw [List.forall_mem_cons] at hnode
    apply not_tooDeep_andThen (hnode.1 g (le_refl g))
    intro s
    refine not_tooDeep_andThen (ih ?_) fun _ => not_tooDeep_ok _ _
    intro q hq g' hg'
    exact hnode.2 q hq g' ((hle r g).trans hg')

/-- One level of depth is spent on a layer, which is around a less high reference, or on a new
component, which takes a free key. -/
theorem ofPlan_not_tooDeep (hle : ∀ r g, g ≤ (node r g).2)
    (hnode : ∀ r g, r.height + h * (g.free keys).card ≤ n → ¬ TooDeep (node r g)) {p : Plan}
    (hp : p.Within keys m h) (hm : 0 < m) (hn : m + h * (g.free keys).card ≤ n + 1) :
    ¬ TooDeep (ofPlan node p g) := by
  cases p with
  | inline i => exact not_tooDeep_ok _ _
  | layer l inner =>
    have hinner : inner.height < m := hp
    exact not_tooDeep_andThen (hnode inner g (by omega)) fun _ => not_tooDeep_ok _ _
  | component key ps rs =>
    obtain ⟨hkey, hrs⟩ := hp
    rw [ofPlan]
    split
    · exact not_tooDeep_ok _ _
    · next hk =>
      refine not_tooDeep_andThen (each_not_tooDeep hle ?_) fun _ => not_tooDeep_ok _ _
      intro q hq g' hg'
      -- the key is taken from here on, so the depth kept for it goes to the property
      have hless : (g'.free keys).card < (g.free keys).card :=
        (Finset.card_le_card (Registry.free_subset_of_le hg')).trans_lt
          (Registry.card_free_put_lt hkey hk .pending)
      have hspent : h * (g'.free keys).card + h ≤ h * (g.free keys).card :=
        Nat.mul_le_mul_left h hless
      have hq : q.height ≤ h := hrs q hq
      exact hnode q g' (by omega)

end

/-- The height of the reference and of one more reference for every free key are depth enough. -/
theorem node_not_tooDeep (hc : c.Simple) (hh : c.PropertiesWithin h)
    (hn : r.height + h * (g.free c.objectKeys).card ≤ n) : ¬ TooDeep (node c limit n r g) := by
  induction n generalizing r g with
  | zero =>
    have hpos : 0 < r.height := r.height_pos
    omega
  | succ n ih =>
    rw [node_succ]
    split
    · next e he =>
      intro ⟨written, limit, hdeep⟩
      cases hdeep
      exact Catalog.plan_ne_recursionLimit he
    · next p hp =>
      exact ofPlan_not_tooDeep (node_le c limit n) (fun _ _ => ih)
        (Catalog.plan_within hc hh hp) r.height_pos hn

end Compile

namespace Catalog

open Compile (TooDeep)

/-- Simple types never exhaust the depth, in whatever cycles they refer to each other, if there are
few enough object types for the height of the references. -/
theorem compile_ne_recursionLimit {c : Catalog} {h : Nat} (hc : c.Simple)
    (hh : c.PropertiesWithin h) (hdepth : (c.objects.length + 1) * h ≤ maxNestingDepth)
    {r : Reference} (hr : r.height ≤ h) (g : Registry) (written : String) (limit : Nat) :
    (c.compile r g).1 ≠ .error (.recursionLimit written limit) := by
  have hfree : (g.free c.objectKeys).card ≤ c.objects.length :=
    (Finset.card_le_card Finset.sdiff_subset).trans c.card_objectKeys_le
  have hspent : h * (g.free c.objectKeys).card ≤ h * c.objects.length :=
    Nat.mul_le_mul_left h hfree
  have hn : r.height + h * (g.free c.objectKeys).card ≤ maxNestingDepth := by
    rw [Nat.succ_mul, Nat.mul_comm] at hdepth
    omega
  intro hdeep
  rw [compile, compileWithin_fst] at hdeep
  exact Compile.node_not_tooDeep hc hh hn ⟨written, limit, hdeep⟩

/-- Three object types in a ring beside the built-in types. Each holds the next one as deep as three
may. -/
def ringTypes : Catalog where
  types := builtinTypes ++ [
    ⟨"House", [], .object [{ name := "Flats", type := .arrays (.leaf "Flat") 15 }]⟩,
    ⟨"Flat", [], .object [
      { name := "Owners", type := .named (collectionName "List" 1) [.arrays (.leaf "Owner") 14] }]⟩,
    ⟨"Owner", [], .object [{ name := "Houses", type := .arrays (.leaf "House") 15 }]⟩]
  aliases := builtin.aliases
  sources := []

/-- The ring and the reference to it fill the depth. -/
theorem compile_ne_recursionLimit_ringTypes :
    let r := Reference.arrays (.leaf "House") 15
    ringTypes.Simple ∧ ringTypes.PropertiesWithin 16 ∧
      (ringTypes.objects.length + 1) * 16 = maxNestingDepth ∧ r.height = 16 ∧
      ∀ g written limit, (ringTypes.compile r g).1 ≠ .error (.recursionLimit written limit) := by
  intro r
  have hc : ringTypes.Simple := by
    intro d hd
    apply (List.mem_append.mp hd).imp_right
    intro hd
    simp only [List.mem_cons, List.not_mem_nil, or_false] at hd
    obtain rfl | rfl | rfl := hd <;> exact ⟨rfl, rfl⟩
  have hh : ringTypes.PropertiesWithin 16 := by decide
  have hdepth : (ringTypes.objects.length + 1) * 16 = maxNestingDepth := by decide
  exact ⟨hc, hh, hdepth, rfl, compile_ne_recursionLimit hc hh hdepth.le (by decide)⟩

/-- A reference that is one level higher no longer fits. -/
example : TooDeep (ringTypes.compile (.arrays (.leaf "House") 16) .empty) := ⟨_, _, rfl⟩

end Catalog
end SchemaGraph
