import SchemaGraph.Catalog.Load
import SchemaGraph.Proofs.Table
import SchemaGraph.Proofs.Token

/-! # Catalogs that can come about

A catalog starts empty or with the built-in types and grows by insertions and loads. Whatever is
inserted, full names stay distinct, and a keyword is never anything but another word for a plain
name. -/

namespace SchemaGraph
namespace Catalog

variable {c c' : Catalog} {d : Descriptor} {ds : List Descriptor} {f : Format}
  {source text name : String} {P : Catalog → Prop}

/-- The catalog comes about by insertions and loads. A load counts also if it fails halfway. -/
inductive Reachable : Catalog → Prop
  | empty : Reachable .empty
  | builtin : Reachable .builtin
  | insert {c c' : Catalog} {d : Descriptor} (h : Reachable c) (hi : c.insert d = .ok c') :
    Reachable c'
  | load {c : Catalog} (h : Reachable c) (f : Format) (source text : String) :
    Reachable (c.load f source text).2

/-- The catalog comes about by loads. -/
inductive Loaded : Catalog → Prop
  | empty : Loaded .empty
  | builtin : Loaded .builtin
  | load {c : Catalog} (h : Loaded c) (f : Format) (source text : String) :
    Loaded (c.load f source text).2

theorem Loaded.reachable (h : c.Loaded) : c.Reachable := by
  induction h with
  | empty => exact .empty
  | builtin => exact .builtin
  | load _ f source text ih => exact .load ih f source text

/-! ## Descriptors by their names -/

theorem find?_name_eq_some_iff (hd : (ds.map (·.name)).Nodup) :
    ds.find? (·.name == name) = some d ↔ d ∈ ds ∧ d.name = name := by
  constructor
  · intro h
    exact ⟨List.mem_of_find?_eq_some h, by simpa using List.find?_some h⟩
  · rintro ⟨hmem, rfl⟩
    have hsome : (ds.find? (·.name == d.name)).isSome :=
      List.find?_isSome.mpr ⟨d, hmem, beq_self_eq_true _⟩
    obtain ⟨e, he⟩ := Option.isSome_iff_exists.mp hsome
    have hname : e.name = d.name := by simpa using List.find?_some he
    rw [he, List.inj_on_of_nodup_map hd (List.mem_of_find?_eq_some he) hmem hname]

/-! ## Insertions -/

theorem insert_eq_ok (h : c.insert d = .ok c') :
    d.name ∉ c.types.map (·.name) ∧ c' = { c with types := c.types ++ [d] } := by
  rw [insert] at h
  split at h
  · cases h
  · split at h
    · cases h
    · next hfind =>
      cases h
      rw [Bool.not_eq_true, Option.isSome_eq_false_iff, find?, Option.isNone_iff_eq_none,
        List.find?_eq_none] at hfind
      refine ⟨fun hd => ?_, rfl⟩
      obtain ⟨e, he, hed⟩ := List.mem_map.mp hd
      exact hfind e he (by simpa using hed)

theorem insert_of_fresh (hblank : Text.trim d.name.toList ≠ [])
    (hd : d.name ∉ c.types.map (·.name)) :
    c.insert d = .ok { c with types := c.types ++ [d] } := by
  have hnone : c.find? d.name = none := by
    rw [find?, List.find?_eq_none]
    intro e he hname
    exact hd (List.mem_map.mpr ⟨e, he, beq_iff_eq.mp hname⟩)
  rw [insert, if_neg (by simpa using hblank), hnone]
  rfl

/-- What insertions keep is kept by inserting many descriptors, as far as this goes. -/
theorem insertAll_induct (hc : P c)
    (hinsert : ∀ {c c' d}, d ∈ ds → c.insert d = .ok c' → P c → P c') : P (c.insertAll ds).2 := by
  induction ds generalizing c with
  | nil => exact hc
  | cons d ds ih =>
    rw [insertAll]
    split
    · next hi =>
      refine ih (hinsert List.mem_cons_self hi hc) ?_
      exact fun hd => hinsert (List.mem_cons_of_mem _ hd)
    · exact hc

theorem Reachable.insertAll (h : c.Reachable) (ds : List Descriptor) :
    (c.insertAll ds).2.Reachable := insertAll_induct h fun _ hi h => .insert h hi

/-- What holds of a catalog whatever its sources, and is kept by insertions of what a text
describes, is kept by loading the text. -/
theorem load_induct (hc : P c)
    (hinsert : ∀ {c c' d ds}, readTypes f text = .ok ds → d ∈ ds → c.insert d = .ok c' →
      P c → P c')
    (hsources : ∀ {c} sources, P c → P { c with sources }) : P (c.load f source text).2 := by
  rw [load]
  split
  · next ds hread =>
    have hds := insertAll_induct hc fun hd => hinsert hread hd
    rw [absorb]
    split
    · next hall => rw [hall] at hds; exact hsources _ hds
    · next hall => rwa [hall] at hds
  · exact hc

/-! ## Laws -/

/-- Full names are distinct, and every keyword is a plain name for a plain name. -/
structure Lawful (c : Catalog) : Prop where
  nodup : (c.types.map (·.name)).Nodup
  keyword : ∀ {word name}, c.aliases.get? word = some name →
    Token.IsBase word.toList ∧ Token.IsBase name.toList

theorem lawful_empty : empty.Lawful where
  nodup := List.nodup_nil
  keyword h := by cases h

theorem lawful_builtin : builtin.Lawful where
  nodup := by decide +kernel
  keyword := by
    intro word name h
    have hall : ∀ e ∈ builtin.aliases, Token.IsBase e.1.toList ∧ Token.IsBase e.2.toList := by
      decide +kernel
    exact hall _ (Table.mem_of_get? h)

theorem Lawful.insert (hc : c.Lawful) (h : c.insert d = .ok c') : c'.Lawful := by
  obtain ⟨hd, rfl⟩ := insert_eq_ok h
  refine ⟨?_, hc.keyword⟩
  rw [List.map_append, List.nodup_append]
  refine ⟨hc.nodup, by simp, fun n hn m hm => ?_⟩
  obtain rfl : m = d.name := by simpa using hm
  exact fun he => hd (he ▸ hn)

theorem Lawful.load (hc : c.Lawful) : (c.load f source text).2.Lawful :=
  load_induct hc (fun _ _ hi h => h.insert hi) fun _ h => ⟨h.nodup, h.keyword⟩

theorem Reachable.lawful (h : c.Reachable) : c.Lawful := by
  induction h with
  | empty => exact lawful_empty
  | builtin => exact lawful_builtin
  | insert _ hi ih => exact ih.insert hi
  | load _ f source text ih => exact ih.load

theorem Lawful.eq_of_name_eq {e : Descriptor} (hc : c.Lawful) (hd : d ∈ c.types)
    (he : e ∈ c.types) (h : d.name = e.name) : d = e :=
  List.inj_on_of_nodup_map hc.nodup hd he h

end Catalog
end SchemaGraph
