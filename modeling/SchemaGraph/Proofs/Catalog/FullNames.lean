import SchemaGraph.Proofs.Catalog.Resolution

/-! # Full names are found

A full name is looked up before the ends of names, so no other type of the catalog stands in its
way. It is looked up as it stands unless it is a keyword or has blank ends: a keyword is always the
primitive it stands for, which no insertion removes. -/

namespace SchemaGraph
namespace Catalog

variable {c c' : Catalog} {d : Descriptor} {name : String}

/-! ## Types by their full names -/

theorem Lawful.find?_name (hc : c.Lawful) (hd : d ∈ c.types) : c.find? d.name = some d :=
  (find?_name_eq_some_iff hc.nodup).mpr ⟨hd, rfl⟩

/-- A type is found under a name that is looked up as its full name. -/
theorem Lawful.resolve_eq_ok_of_lookupName (hc : c.Lawful) (hd : d ∈ c.types)
    (hname : c.lookupName name = d.name) : c.resolve name = .ok d := by
  simp only [resolve, hname, hc.find?_name hd]

theorem lookupName_eq (htrim : Text.trimmed name = name) :
    c.lookupName name = (c.aliases.get? name).getD name := by
  rw [lookupName, htrim]

/-- A type is not found under its full name if another text is looked up instead that does not end
the full name either. -/
theorem resolve_ne_ok (hname : d.name ≠ c.lookupName d.name)
    (hends : endsIn d.name (c.lookupName d.name) = false) : c.resolve d.name ≠ .ok d := by
  intro h
  obtain ⟨-, hfull | ⟨hend, -⟩⟩ := resolve_eq_ok h
  · exact hname hfull
  · rw [hends] at hend
    cases hend

/-! ## Keywords -/

/-- The type of a primitive. -/
def primitiveType (p : Primitive) : Descriptor := ⟨fullName p, [], .primitive p⟩

/-- Every keyword stands for a primitive that is among the types. -/
def KnowsKeywords (c : Catalog) : Prop :=
  ∀ word full, c.aliases.get? word = some full →
    ∃ p, full = fullName p ∧ primitiveType p ∈ c.types

theorem knowsKeywords_builtin : builtin.KnowsKeywords := by
  intro word full h
  obtain ⟨p, -, hp⟩ := List.mem_filterMap.mp (Table.mem_of_get? h)
  obtain ⟨w, -, hw⟩ := Option.map_eq_some_iff.mp hp
  cases hw
  refine ⟨p, rfl, ?_⟩
  exact List.mem_append_left _ (List.mem_append_left _ (List.mem_map_of_mem (Primitive.mem_all p)))

theorem KnowsKeywords.insert (hc : c.KnowsKeywords) (h : c.insert d = .ok c') :
    c'.KnowsKeywords := by
  obtain ⟨-, rfl⟩ := insert_eq_ok h
  intro word full hword
  obtain ⟨p, hp, hmem⟩ := hc word full hword
  exact ⟨p, hp, List.mem_append_left _ hmem⟩

theorem Reachable.knowsKeywords (h : c.Reachable) : c.KnowsKeywords := by
  induction h with
  | empty => intro word full h; cases h
  | builtin => exact knowsKeywords_builtin
  | insert _ hi ih => exact ih.insert hi
  | load _ f source text ih => exact load_induct ih (fun _ _ hi h => h.insert hi) fun _ h => h

/-! ## Resolution of full names -/

/-- A full name without blank ends stands for its type, whatever other types there are, unless it
is a keyword; then it stands for the primitive of the keyword. -/
theorem resolve_fullName (hc : c.Reachable) (hd : d ∈ c.types)
    (htrim : Text.trimmed d.name = d.name) :
    (d.name ∉ c.aliases.keys → c.resolve d.name = .ok d) ∧
      ∀ full, c.aliases.get? d.name = some full →
        ∃ p, full = fullName p ∧ c.resolve d.name = .ok (primitiveType p) := by
  have hlookup : c.lookupName d.name = (c.aliases.get? d.name).getD d.name := lookupName_eq htrim
  constructor
  · intro hkey
    have hnone : c.aliases.get? d.name = none := by
      rwa [Table.mem_keys_iff_get?, Option.not_isSome_iff_eq_none] at hkey
    rw [hnone] at hlookup
    exact hc.lawful.resolve_eq_ok_of_lookupName hd hlookup
  · intro full hfull
    obtain ⟨p, rfl, hp⟩ := hc.knowsKeywords _ _ hfull
    rw [hfull] at hlookup
    exact ⟨p, rfl, hc.lawful.resolve_eq_ok_of_lookupName hp hlookup⟩

/-- Beside the built-in types, a type whose full name is the end of that of another. -/
def userTypes : Catalog :=
  { builtin with
    types := builtin.types ++ [⟨"Sales.User", [], .object []⟩] ++
      [⟨"Old.Sales.User", [], .object []⟩] }

/-- The other type is a candidate, and does not matter. -/
theorem resolve_fullName_userTypes :
    let d : Descriptor := ⟨"Sales.User", [], .object []⟩
    userTypes.Reachable ∧ d ∈ userTypes.types ∧ Text.trimmed d.name = d.name ∧
      d.name ∉ userTypes.aliases.keys ∧ endsIn "Old.Sales.User" d.name = true ∧
      userTypes.resolve d.name = .ok d := by
  intro d
  have hc : userTypes.Reachable :=
    .insert (.insert .builtin (insert_of_fresh (by decide +kernel) (by decide +kernel)))
      (insert_of_fresh (by decide +kernel) (by decide +kernel))
  have hd : d ∈ userTypes.types :=
    List.mem_append_left _ (List.mem_append_right _ (List.mem_singleton_self d))
  have htrim : Text.trimmed d.name = d.name := by decide +kernel
  have hkey : d.name ∉ userTypes.aliases.keys := by decide +kernel
  exact ⟨hc, hd, htrim, hkey, by decide, (resolve_fullName hc hd htrim).1 hkey⟩

/-- Beside the built-in types, a type that is named like a keyword, and one whose name begins with
a blank. -/
def oddTypes : Catalog :=
  { builtin with
    types := builtin.types ++ [⟨"int", [], .object []⟩] ++ [⟨" Foo", [], .object []⟩] }

/-- The first is taken for the primitive, and the second is not found. -/
theorem oddTypes_missed :
    let int : Descriptor := ⟨"int", [], .object []⟩
    let foo : Descriptor := ⟨" Foo", [], .object []⟩
    oddTypes.Reachable ∧ int ∈ oddTypes.types ∧ foo ∈ oddTypes.types ∧
      oddTypes.lookupName int.name = "System.Int32" ∧ oddTypes.resolve int.name ≠ .ok int ∧
      oddTypes.lookupName foo.name = "Foo" ∧ oddTypes.resolve foo.name ≠ .ok foo := by
  intro int foo
  have hc : oddTypes.Reachable :=
    .insert (.insert .builtin (insert_of_fresh (by decide +kernel) (by decide +kernel)))
      (insert_of_fresh (by decide +kernel) (by decide +kernel))
  have hint : oddTypes.lookupName int.name = "System.Int32" := by decide +kernel
  have hfoo : oddTypes.lookupName foo.name = "Foo" := by decide +kernel
  refine ⟨hc, ?_, ?_, hint, resolve_ne_ok ?_ ?_, hfoo, resolve_ne_ok ?_ ?_⟩
  · exact List.mem_append_left _ (List.mem_append_right _ (List.mem_singleton_self int))
  · exact List.mem_append_right _ (List.mem_singleton_self foo)
  all_goals simp only [hint, hfoo]; decide +kernel

end Catalog
end SchemaGraph
