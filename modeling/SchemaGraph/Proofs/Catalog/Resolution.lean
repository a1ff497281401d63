import SchemaGraph.Identity
import SchemaGraph.Proofs.Catalog.Reachable

/-! # Where names are found

A name is found in the full name of its type: as the whole of it, or behind a `.` or a `+` where no
other full name has it. So the full name tells the name and its arity suffix, and what remains
without the suffix tells the type, unless two full names write one arity in different ways
(`Descriptor.Clash`). -/

namespace SchemaGraph

/-- The text ends in one of the marks. -/
def ClosedBy (marks text : List Char) : Prop := ∃ x ∈ marks, text.getLast? = some x

/-- Something can begin behind the text, because it is empty or ends in one of the marks. -/
def OpenAfter (marks text : List Char) : Prop := text = [] ∨ ClosedBy marks text

section Marks

variable {marks marks' : List Char} {u v : List Char}

theorem ClosedBy.append (h : ClosedBy marks v) (u : List Char) : ClosedBy marks (u ++ v) := by
  obtain ⟨x, hx, hv⟩ := h
  exact ⟨x, hx, by rw [List.getLast?_append, hv, Option.some_or]⟩

theorem ClosedBy.of_append (h : ClosedBy marks (u ++ v)) (hv : v ≠ []) : ClosedBy marks v := by
  obtain ⟨x, hx, he⟩ := h
  refine ⟨x, hx, ?_⟩
  rwa [List.getLast?_append_of_ne_nil u hv] at he

theorem OpenAfter.of_append (h : OpenAfter marks (u ++ v)) : OpenAfter marks v := by
  by_cases hv : v = []
  · exact .inl hv
  · rcases h with hnil | h
    · exact .inl (List.append_eq_nil_iff.mp hnil).2
    · exact .inr (h.of_append hv)

theorem ClosedBy.exists_mem (h : ClosedBy marks u) : ∃ x ∈ marks, x ∈ u := by
  obtain ⟨x, hx, hu⟩ := h
  exact ⟨x, hx, List.mem_of_getLast? hu⟩

theorem ClosedBy.disjoint (h : ClosedBy marks u) (h' : ClosedBy marks' u)
    (hd : ∀ x ∈ marks, x ∉ marks') : False := by
  obtain ⟨x, hx, hu⟩ := h
  obtain ⟨y, hy, hu'⟩ := h'
  rw [hu] at hu'
  cases hu'
  exact hd x hx hy

end Marks

/-- What may stand directly in front of a name in a full name. -/
def qualifierMarks : List Char := ['.', '+']

/-- What may stand directly in front of an argument in an identity. -/
def argumentMarks : List Char := ['<', ',']

section Marks

variable {x : Char}

theorem mem_qualifierMarks : x ∈ qualifierMarks ↔ x = '.' ∨ x = '+' := by simp [qualifierMarks]

theorem mem_argumentMarks : x ∈ argumentMarks ↔ x = '<' ∨ x = ',' := by simp [argumentMarks]

theorem not_mem_qualifierMarks (hx : x ∈ argumentMarks) : x ∉ qualifierMarks := by
  rcases mem_argumentMarks.mp hx with rfl | rfl <;> simp [mem_qualifierMarks]

theorem ne_arityMark (hx : x ∈ qualifierMarks) : x ≠ arityMark := by
  rcases mem_qualifierMarks.mp hx with rfl | rfl <;> simp [arityMark]

theorem isDigit_qualifierMark (hx : x ∈ qualifierMarks) : x.isDigit = false := by
  rcases mem_qualifierMarks.mp hx with rfl | rfl <;> rfl

theorem isBaseChar_argumentMark (hx : x ∈ argumentMarks) : Token.isBaseChar x = false := by
  rcases mem_argumentMarks.mp hx with rfl | rfl <;> rfl

end Marks

namespace Descriptor

/-- Both full names declare the same number of arguments, in different writing, and apart from
that the second is the first or all of it behind an argument mark. -/
def Clash (d e : Descriptor) : Prop :=
  ∃ z stem s t n, OpenAfter argumentMarks z ∧ Token.IsSuffix s n ∧ Token.IsSuffix t n ∧ s ≠ t ∧
    d.name.toList = z ++ stem ++ s ∧ e.name.toList = stem ++ t

end Descriptor

namespace Catalog

variable {c : Catalog} {d e : Descriptor} {name full : String} {n m : Nat}
  {u v w w' base base' s t z : List Char}

/-! ## Candidates -/

theorem endsIn_iff :
    endsIn full name = true ↔ ∃ w, ClosedBy qualifierMarks w ∧ full.toList = w ++ name.toList := by
  rw [endsIn, Bool.or_eq_true, List.isSuffixOf_iff_suffix, List.isSuffixOf_iff_suffix]
  constructor
  · rintro (⟨v, hv⟩ | ⟨v, hv⟩)
    · exact ⟨v ++ ['.'], ⟨'.', mem_qualifierMarks.mpr (.inl rfl), List.getLast?_concat⟩, by simp [← hv]⟩
    · exact ⟨v ++ ['+'], ⟨'+', mem_qualifierMarks.mpr (.inr rfl), List.getLast?_concat⟩, by simp [← hv]⟩
  · rintro ⟨w, ⟨x, hx, hw⟩, hv⟩
    obtain ⟨v, rfl⟩ := List.getLast?_eq_some_iff.mp hw
    rcases mem_qualifierMarks.mp hx with rfl | rfl
    · exact .inl ⟨v, by simp [hv]⟩
    · exact .inr ⟨v, by simp [hv]⟩

theorem candidates_perm (c : Catalog) (name : String) :
    (c.candidates name).Perm (c.types.filter fun d => endsIn d.name name) :=
  List.mergeSort_perm ..

theorem eq_of_candidates (h : c.candidates name = [d]) :
    (d ∈ c.types ∧ endsIn d.name name = true) ∧
      ∀ e ∈ c.types, endsIn e.name name = true → e = d := by
  have hf := List.perm_singleton.mp (h ▸ (c.candidates_perm name).symm)
  have hmem : ∀ e, (e ∈ c.types ∧ endsIn e.name name = true) ↔ e = d := by
    intro e
    have hmem : e ∈ c.types.filter (fun d => endsIn d.name name) ↔ e = d := by simp [hf]
    rwa [List.mem_filter] at hmem
  exact ⟨(hmem d).mpr rfl, fun e he hn => (hmem e).mp ⟨he, hn⟩⟩

/-- A name that only one full name ends in stands for the type of it. -/
theorem resolve_eq_ok_of_filter (hfind : c.find? (c.lookupName name) = none)
    (hends : c.types.filter (fun d => endsIn d.name (c.lookupName name)) = [d]) :
    c.resolve name = .ok d := by
  have hcandidates : c.candidates (c.lookupName name) = [d] := by
    rw [candidates, hends, List.mergeSort_singleton]
  simp only [resolve, hfind, hcandidates]

/-- A name that is found is the full name of its type, or ends it and no other. -/
theorem resolve_eq_ok (h : c.resolve name = .ok d) :
    d ∈ c.types ∧ (d.name = c.lookupName name ∨ endsIn d.name (c.lookupName name) = true ∧
      ∀ e ∈ c.types, endsIn e.name (c.lookupName name) = true → e = d) := by
  rw [resolve] at h
  split at h
  · next hfind =>
    cases h
    exact ⟨List.mem_of_find?_eq_some hfind, .inl (by simpa using List.find?_some hfind)⟩
  · split at h
    · cases h
    · next hd =>
      cases h
      obtain ⟨⟨hmem, hends⟩, hother⟩ := eq_of_candidates hd
      exact ⟨hmem, .inr ⟨hends, hother⟩⟩
    · cases h

theorem Lawful.isName_lookupName (hc : c.Lawful) (hname : Token.IsName name n) :
    Token.IsName (c.lookupName name) n := by
  simp only [lookupName, hname.trimmed]
  cases halias : c.aliases.get? name with
  | none => exact hname
  | some target =>
    obtain ⟨hword, htarget⟩ := hc.keyword halias
    obtain rfl := hname.unique (.of_base hword)
    exact .of_base htarget

/-! ## A name in its full name -/

/-- The full name of the type is a qualifier, a base and a suffix for `n` arguments. If there is a
qualifier, then no other full name ends in this base and suffix behind one. -/
structure Found (c : Catalog) (w base s : List Char) (n : Nat) (d : Descriptor) : Prop where
  mem : d ∈ c.types
  isBase : Token.IsBase base
  isSuffix : Token.IsSuffix s n
  name : d.name.toList = w ++ base ++ s
  qualifier : w = [] ∨ ClosedBy qualifierMarks w ∧ ∀ e ∈ c.types, ∀ v,
    ClosedBy qualifierMarks v → e.name.toList = v ++ base ++ s → e = d

theorem Lawful.found (hc : c.Lawful) (hname : Token.IsName name n) (h : c.resolve name = .ok d) :
    ∃ w base s, c.Found w base s n d := by
  obtain ⟨base, s, hb, hs, he⟩ := hc.isName_lookupName hname
  obtain ⟨hmem, hfull | ⟨hends, hother⟩⟩ := resolve_eq_ok h
  · exact ⟨[], base, s, hmem, hb, hs, by rw [hfull, he, List.nil_append], .inl rfl⟩
  · obtain ⟨w, hw, hd⟩ := endsIn_iff.mp hends
    refine ⟨w, base, s, hmem, hb, hs, by rw [hd, he, List.append_assoc], .inr ⟨hw, ?_⟩⟩
    intro e hmem v hv hname
    refine hother e hmem (endsIn_iff.mpr ⟨v, hv, ?_⟩)
    rw [hname, he, List.append_assoc]

theorem Found.openAfter (h : c.Found w base s n d) : OpenAfter qualifierMarks w :=
  h.qualifier.imp_right And.left

/-- The suffix is all that is dropped from the full name. -/
theorem Found.stripArity (h : c.Found w base s n d) :
    (stripArity d.name).toList = w ++ base := by
  have hname := h.name
  cases h.isSuffix with
  | digits hne hds => exact Token.stripArity_digits hne hds hname
  | none =>
    rw [List.append_nil] at hname
    rw [Token.stripArity_eq_self, hname]
    intro stem ds hds he
    rw [hname] at he
    rcases List.append_eq_append_iff.mp he with ⟨a, -, ha⟩ | ⟨a, ha, htail⟩
    · exact h.isBase.not_mem Token.isBaseChar_arityMark (ha ▸ by simp)
    · by_cases hnil : a = []
      · rw [hnil, List.nil_append] at htail
        exact h.isBase.not_mem Token.isBaseChar_arityMark (htail ▸ List.mem_cons_self)
      · -- the qualifier would end in the mark or in a digit
        rcases h.openAfter with rfl | hw
        · exact hnil (List.append_eq_nil_iff.mp ha.symm).2
        · obtain ⟨x, hx, hxa⟩ := ((ha ▸ hw).of_append hnil).exists_mem
          have hxs : x ∈ arityMark :: ds := htail ▸ List.mem_append_left _ hxa
          rcases List.mem_cons.mp hxs with rfl | hxs
          · exact ne_arityMark hx rfl
          · have hdigit := isDigit_qualifierMark hx
            rw [hds x hxs] at hdigit
            cases hdigit

/-- Behind an argument mark no name begins but the one that the text there is found for. -/
theorem Found.eq_of_append (hc : c.Lawful) (h : c.Found w base s n d)
    (h' : c.Found w' base' s n e) (hz : OpenAfter argumentMarks z)
    (he : w ++ base = z ++ (w' ++ base')) : z = [] ∧ d = e := by
  rcases hz with rfl | hz
  · refine ⟨rfl, hc.eq_of_name_eq h.mem h'.mem (String.toList_inj.mp ?_)⟩
    rw [h.name, h'.name, he, List.nil_append]
  · exfalso
    have hbase : ∀ x ∈ argumentMarks, x ∉ base :=
      fun x hx => h.isBase.not_mem (isBaseChar_argumentMark hx)
    rcases h.qualifier with rfl | ⟨hw, hother⟩
    · obtain ⟨x, hx, hxz⟩ := hz.exists_mem
      rw [List.nil_append] at he
      exact hbase x hx (he ▸ List.mem_append_left _ hxz)
    · rcases List.append_eq_append_iff.mp he with ⟨a, ha, hb⟩ | ⟨a, ha, hb⟩
      · by_cases hnil : a = []
        · rw [hnil, List.append_nil] at ha
          exact hz.disjoint (ha ▸ hw) fun x => not_mem_qualifierMarks
        · obtain ⟨x, hx, hxa⟩ := ((ha ▸ hz).of_append hnil).exists_mem
          exact hbase x hx (hb ▸ List.mem_append_left _ hxa)
      · by_cases hnil : a = []
        · rw [hnil, List.append_nil] at ha
          exact hz.disjoint (ha ▸ hw) fun x => not_mem_qualifierMarks
        · -- the other full name ends in the same name, so it is the same
          have ha' : ClosedBy qualifierMarks a := (ha ▸ hw).of_append hnil
          have hed : e = d := hother e h'.mem a ha' (by rw [h'.name, hb])
          subst hed
          have hlength := congrArg List.length he
          have hname := congrArg List.length (h.name.symm.trans h'.name)
          obtain ⟨x, -, hxz⟩ := hz.exists_mem
          have hpos := List.length_pos_of_mem hxz
          simp only [List.length_append] at hlength hname
          omega

end Catalog
end SchemaGraph
