import SchemaGraph.Proofs.Catalog.Loading
import SchemaGraph.Proofs.Catalog.Resolution

/-! # Resolution and the order of insertions

What a name stands for is told by the type of that full name and by the full names that end in it.
Neither depends on the order in which types were inserted, and an insertion changes them only for
the full name of its type and for the ends of it. -/

namespace SchemaGraph
namespace Catalog

variable {c c' : Catalog} {d : Descriptor} {ds ds' : List Descriptor} {name : String}
  {taken : List String}

/-! ## Descriptors by their names -/

theorem find?_name_of_perm (h : ds.Perm ds') (hd : (ds.map (·.name)).Nodup) (name : String) :
    ds.find? (·.name == name) = ds'.find? (·.name == name) := by
  have hd' : (ds'.map (·.name)).Nodup := (h.map _).nodup hd
  ext d
  rw [find?_name_eq_some_iff hd, find?_name_eq_some_iff hd', h.mem_iff]

/-! ## Candidates -/

/-- The full names that end in a name, as they are listed when there are several. -/
def candidateNames (c : Catalog) (name : String) : List String := (c.candidates name).map (·.name)

theorem pairwise_candidateNames (c : Catalog) (name : String) :
    (c.candidateNames name).Pairwise (· ≤ ·) :=
  List.pairwise_map.mpr (Text.pairwise_mergeSort Descriptor.name _)

theorem candidateNames_congr (h : (c.candidates name).Perm (c'.candidates name)) :
    c.candidateNames name = c'.candidateNames name := by
  refine (h.map _).eq_of_pairwise (fun k l _ _ => String.le_antisymm) ?_ ?_
  · exact c.pairwise_candidateNames name
  · exact c'.pairwise_candidateNames name

theorem resolve_eq_ambiguous (hfind : c.find? (c.lookupName name) = none)
    (hseveral : 1 < (c.candidates (c.lookupName name)).length) :
    c.resolve name =
      .error (.ambiguous (c.lookupName name) (c.candidateNames (c.lookupName name))) := by
  simp only [resolve, hfind, candidateNames]
  rcases hc : c.candidates (c.lookupName name) with _ | ⟨d, _ | ⟨e, ds⟩⟩
  · simp [hc] at hseveral
  · simp [hc] at hseveral
  · rfl

/-- Catalogs agree on a name that both look up alike if the same type bears it as its full name and
the same types end in it. -/
theorem resolve_congr (hname : c.lookupName name = c'.lookupName name)
    (hsources : c.sources = c'.sources)
    (hfind : c.find? (c.lookupName name) = c'.find? (c.lookupName name))
    (hperm : (c.candidates (c.lookupName name)).Perm (c'.candidates (c.lookupName name))) :
    c.resolve name = c'.resolve name := by
  cases hd : c.find? (c.lookupName name) with
  | some d => simp only [resolve, ← hname, ← hfind, hd]
  | none =>
    by_cases hseveral : 1 < (c.candidates (c.lookupName name)).length
    · rw [resolve_eq_ambiguous hd hseveral, candidateNames_congr hperm, hname]
      rw [hname] at hd hfind hseveral hperm
      exact (resolve_eq_ambiguous (hfind ▸ hd) (hperm.length_eq ▸ hseveral)).symm
    · -- a list of at most one descriptor is in order whatever its order
      have hcandidates : c.candidates (c.lookupName name) = c'.candidates (c.lookupName name) := by
        rcases hc : c.candidates (c.lookupName name) with _ | ⟨d, _ | ⟨e, ds⟩⟩
        · rw [hc] at hperm
          exact (List.nil_perm.mp hperm).symm
        · rw [hc] at hperm
          exact List.singleton_perm.mp hperm
        · simp [hc] at hseveral
      simp only [resolve, ← hname, ← hfind, ← hcandidates, hsources]

/-! ## What names stand for -/

/-- What a name stands for, told by the full names: the type of that name; else, if none of them
ends in it, nothing; if one does, the type of that; if several do, none of these, and they are
listed in ascending order of their bytes. -/
inductive Means (c : Catalog) (name : String) : Except ResolveError Descriptor → Prop
  | full {d : Descriptor} (hfull : c.find? name = some d) : Means c name (.ok d)
  | unknown (hfull : name ∉ c.names) (hends : c.names.filter (endsIn · name) = []) :
    Means c name (.error (.notFound name c.sources))
  | ending {d : Descriptor} (hfull : name ∉ c.names) (hd : d ∈ c.types)
    (hends : c.names.filter (endsIn · name) = [d.name]) : Means c name (.ok d)
  | ambiguous {cands : List String} (hfull : name ∉ c.names) (hseveral : 1 < cands.length)
    (hsorted : cands.Pairwise fun k l => Text.bytes k ≤ Text.bytes l)
    (hends : cands.Perm (c.names.filter (endsIn · name))) :
    Means c name (.error (.ambiguous name cands))

theorem candidateNames_perm (c : Catalog) (name : String) :
    (c.candidateNames name).Perm (c.names.filter (endsIn · name)) := by
  rw [names, List.filter_map]
  exact (c.candidates_perm name).map _

theorem not_mem_names (h : c.find? name = none) : name ∉ c.names := by
  intro hname
  obtain ⟨d, hd, rfl⟩ := List.mem_map.mp hname
  exact List.find?_eq_none.mp h d hd (beq_self_eq_true _)

theorem means_resolve (c : Catalog) (q : String) : c.Means (c.lookupName q) (c.resolve q) := by
  cases hfind : c.find? (c.lookupName q) with
  | some d =>
    simp only [resolve, hfind]
    exact .full hfind
  | none =>
    have hfull := not_mem_names hfind
    have hends := c.candidateNames_perm (c.lookupName q)
    by_cases hseveral : 1 < (c.candidates (c.lookupName q)).length
    · rw [resolve_eq_ambiguous hfind hseveral]
      refine .ambiguous hfull ?_ ?_ hends
      · rwa [candidateNames, List.length_map]
      · exact (c.pairwise_candidateNames _).imp Text.bytes_le_iff.mpr
    · rw [candidateNames] at hends
      simp only [resolve, hfind]
      rcases hc : c.candidates (c.lookupName q) with _ | ⟨d, _ | ⟨e, ds⟩⟩
      · rw [hc] at hends
        exact .unknown hfull (List.nil_perm.mp hends)
      · rw [hc] at hends
        exact .ending hfull (eq_of_candidates hc).1.1 (List.singleton_perm.mp hends).symm
      · simp [hc] at hseveral

/-! ## Insertions -/

theorem Admitted.perm (h : Admitted taken ds) (hp : ds.Perm ds') : Admitted taken ds' where
  nonblank d hd := h.nonblank d (hp.mem_iff.mpr hd)
  fresh d hd := h.fresh d (hp.mem_iff.mpr hd)
  nodup := (hp.map _).nodup h.nodup

theorem Admitted.not_refused (h : Admitted taken (ds ++ d :: ds')) :
    ¬ ∃ e, Refused (taken ++ ds.map (·.name)) d e := by
  induction ds generalizing taken with
  | nil => simpa using (admitted_cons.mp h).1
  | cons x ds ih => simpa using ih (admitted_cons.mp h).2

theorem insertAll_of_admitted (h : Admitted c.names ds) :
    c.insertAll ds = (.ok (), { c with types := c.types ++ ds }) := by
  rcases c.insertAll_cases ds with ⟨-, hall⟩ | ⟨before, d, after, e, rfl, -, hd, -⟩
  · exact hall
  · exact absurd ⟨e, hd⟩ h.not_refused

theorem admitted_of_insertAll (h : (c.insertAll ds).1 = .ok ()) : Admitted c.names ds := by
  rcases c.insertAll_cases ds with ⟨hds, -⟩ | ⟨before, d, after, e, -, -, -, hall⟩
  · exact hds
  · rw [hall] at h
    cases h

/-- Names stand for the same whichever order types are inserted in. -/
theorem resolve_append_of_perm (hp : ds.Perm ds') (hd : (ds.map (·.name)).Nodup) (q : String) :
    resolve { c with types := c.types ++ ds } q = resolve { c with types := c.types ++ ds' } q := by
  refine resolve_congr rfl rfl ?_ ?_
  · simp only [find?, List.find?_append]
    rw [find?_name_of_perm hp hd]
  · refine (candidates_perm _ _).trans (.trans ?_ (candidates_perm _ _).symm)
    simp only [List.filter_append]
    exact (hp.filter _).append_left _

theorem endsIn_iff_eq_append :
    endsIn d.name name = true ↔ ∃ w, d.name = w ++ "." ++ name ∨ d.name = w ++ "+" ++ name := by
  rw [endsIn_iff]
  constructor
  · rintro ⟨w, ⟨x, hx, hw⟩, hname⟩
    obtain ⟨v, rfl⟩ := List.getLast?_eq_some_iff.mp hw
    refine ⟨String.ofList v, ?_⟩
    rcases mem_qualifierMarks.mp hx with rfl | rfl
    · exact .inl (String.toList_inj.mp (by simp [hname]))
    · exact .inr (String.toList_inj.mp (by simp [hname]))
  · rintro ⟨w, hname | hname⟩
    · exact ⟨w.toList ++ ['.'], ⟨'.', by decide, List.getLast?_concat⟩, by simp [hname]⟩
    · exact ⟨w.toList ++ ['+'], ⟨'+', by decide, List.getLast?_concat⟩, by simp [hname]⟩

/-- An insertion matters to the full name of its type and to the ends of it. -/
theorem resolve_insert (h : c.insert d = .ok c') {q : String} (hfull : c.lookupName q ≠ d.name)
    (hends : endsIn d.name (c.lookupName q) = false) : c'.resolve q = c.resolve q := by
  obtain ⟨-, rfl⟩ := insert_eq_ok h
  symm
  apply resolve_congr
  · rfl
  · rfl
  · have hd : [d].find? (·.name == c.lookupName q) = none := by simp [Ne.symm hfull]
    simp only [find?, List.find?_append]
    rw [hd, Option.or_none]
  · have hd : [d].filter (fun d => endsIn d.name (c.lookupName q)) = [] := by simp [hends]
    apply List.Perm.of_eq
    simp only [candidates, List.filter_append]
    rw [hd, List.append_nil]

/-- What a name stands for is told by the types of a catalog and not by the order in which they were
inserted. An insertion leaves it alone unless the name that is looked up is the full name of the
inserted type or ends it behind a `.` or a `+`. -/
theorem resolution_by_types :
    (∀ (c : Catalog) (q : String), c.Means (c.lookupName q) (c.resolve q)) ∧
    (∀ (c : Catalog) (ds ds' : List Descriptor), (c.insertAll ds).1 = .ok () → ds.Perm ds' →
      (c.insertAll ds').1 = .ok () ∧
        ∀ q, (c.insertAll ds').2.resolve q = (c.insertAll ds).2.resolve q) ∧
    ∀ (c c' : Catalog) (d : Descriptor) (q : String), c.insert d = .ok c' →
      c.lookupName q ≠ d.name →
      (¬ ∃ w, d.name = w ++ "." ++ c.lookupName q ∨ d.name = w ++ "+" ++ c.lookupName q) →
      c'.resolve q = c.resolve q := by
  refine ⟨means_resolve, ?_, ?_⟩
  · intro c ds ds' h hp
    have hds := admitted_of_insertAll h
    rw [insertAll_of_admitted hds, insertAll_of_admitted (hds.perm hp)]
    exact ⟨rfl, fun q => (resolve_append_of_perm hp hds.nodup q).symm⟩
  · intro c c' d q h hfull hends
    rw [← endsIn_iff_eq_append, Bool.not_eq_true] at hends
    exact resolve_insert h hfull hends

/-- Objects without properties, by their names. -/
def bareTypes (names : List String) : List Descriptor :=
  names.map fun name => ⟨name, [], .object []⟩

/-- Two users make their last name ambiguous whichever came first, and an invoice changes nothing. -/
theorem resolution_by_types_user :
    let c := (empty.insertAll (bareTypes ["Sales.User", "Billing.User"])).2
    let c' := (empty.insertAll (bareTypes ["Billing.User", "Sales.User"])).2
    (∀ q, c'.resolve q = c.resolve q) ∧ c.Means "User" (c.resolve "User") ∧
      c.names.filter (endsIn · "User") = ["Sales.User", "Billing.User"] ∧
      ∃ e, c.insert ⟨"Billing.Invoice", [], .object []⟩ = .ok e ∧
        e.resolve "User" = c.resolve "User" := by
  intro c c'
  obtain ⟨hmeans, horder, hlocal⟩ := resolution_by_types
  have hname : c.lookupName "User" = "User" := by decide +kernel
  refine ⟨?_, hname ▸ hmeans c "User", by decide +kernel, ?_⟩
  · have hall : (empty.insertAll (bareTypes ["Sales.User", "Billing.User"])).1 = .ok () := by
      decide +kernel
    exact (horder empty _ _ hall (.swap ..)).2
  · have hinsert := insert_of_fresh (c := c) (d := ⟨"Billing.Invoice", [], .object []⟩)
      (by decide) (by decide +kernel)
    refine ⟨_, hinsert, hlocal c _ _ "User" hinsert (by rw [hname]; decide) ?_⟩
    rw [← endsIn_iff_eq_append, hname]
    decide

end Catalog
end SchemaGraph
