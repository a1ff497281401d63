import SchemaGraph.Proofs.Reference.Names

/-! # Displayed references

A displayed reference shows the bases of its names, arguments in angle brackets and arrays by
markers. No delimiter stands in a base, so from the left the text falls apart in one way: into a
base, the arguments behind it and the markers behind these (`unambiguous`). Two decoded references
are displayed alike just if they are the same up to arity suffixes. -/

namespace SchemaGraph
namespace Reference

variable {f : String → String} {R : String → String → Prop} {name : String}
  {rank rank' : Nat} {r s : Reference} {rs ss : List Reference} {k l cs base base' : List Char}

/-! ## Renaming -/

mutual

/-- Renames all types in a reference. -/
def mapNames (f : String → String) : Reference → Reference
  | .named name arguments => .named (f name) (mapNamesAll f arguments)
  | .array element => .array (mapNames f element)

def mapNamesAll (f : String → String) : List Reference → List Reference
  | [] => []
  | argument :: more => mapNames f argument :: mapNamesAll f more

end

@[simp] theorem mapNamesAll_eq_map (f : String → String) (rs : List Reference) :
    mapNamesAll f rs = rs.map (mapNames f) := by
  induction rs with
  | nil => rfl
  | cons r rs ih => rw [mapNamesAll, ih, List.map_cons]

theorem map_eq_map_iff {α β : Type} {g : α → β} {l m : List α} :
    l.map g = m.map g ↔ List.Forall₂ (fun a b => g a = g b) l m := by
  rw [← List.forall₂_eq_eq_eq, List.forall₂_map_left_iff, List.forall₂_map_right_iff]

/-- Renamed references are equal if they have one shape and equal new names. -/
theorem mapNames_eq_iff : r.mapNames f = s.mapNames f ↔ Rel (fun n m => f n = f m) r s := by
  constructor
  · intro h
    induction r generalizing s with
    | named name rs ih =>
      cases s with
      | named name' ss =>
        simp only [mapNames, mapNamesAll_eq_map, named.injEq, map_eq_map_iff] at h
        obtain ⟨hname, hall⟩ := h
        obtain ⟨hlength, hzip⟩ := List.forall₂_iff_zip.mp hall
        exact .named hname hlength fun hm => ih _ (List.of_mem_zip hm).1 (hzip hm)
      | array => simp [mapNames] at h
    | array r ih =>
      cases s with
      | named => simp [mapNames] at h
      | array s =>
        simp only [mapNames, array.injEq] at h
        exact .array (ih h)
  · intro h
    induction h with
    | named hname hlength _ ih =>
      have hall := map_eq_map_iff.mpr (List.forall₂_iff_zip.mpr ⟨hlength, ih⟩)
      simp only [mapNames, mapNamesAll_eq_map, hname, hall]
    | array _ ih => simp only [mapNames, ih]

/-! ## The text of a reference -/

/-- The arguments in angle brackets; nothing for none. -/
def bracketed : List Reference → String
  | [] => ""
  | argument :: more => "<" ++ display argument ++ displayMore more ++ ">"

theorem display_named (name : String) (rs : List Reference) :
    (named name rs).display = stripArity name ++ bracketed rs := by
  cases rs with
  | nil => rw [display, bracketed, String.append_empty]
  | cons r rs => rw [display, bracketed, String.append_assoc, String.append_assoc]

theorem display_arrays (r : Reference) (rank : Nat) :
    (r.arrays rank).display = Token.marked r.display rank := by
  induction rank with
  | zero => rfl
  | succ rank ih => rw [arrays, display, ih, Token.marked]

theorem displayMore_congr (h : List.Forall₂ (fun r s => display r = display s) rs ss) :
    displayMore rs = displayMore ss := by
  induction h with
  | nil => rfl
  | cons hr _ ih => rw [displayMore, displayMore, hr, ih]

theorem bracketed_congr (h : List.Forall₂ (fun r s => display r = display s) rs ss) :
    bracketed rs = bracketed ss := by
  cases h with
  | nil => rfl
  | cons hr hrs => rw [bracketed, bracketed, hr, displayMore_congr hrs]

/-- The references have one shape, and their names at equal positions have one base. -/
abbrev SameBases : Reference → Reference → Prop := Rel fun n m => stripArity n = stripArity m

/-- The display shows nothing of the arity suffixes. -/
theorem display_eq_of_sameBases (h : SameBases r s) : r.display = s.display := by
  induction h with
  | named hname hlength _ ih =>
    rw [display_named, display_named, hname,
      bracketed_congr (List.forall₂_iff_zip.mpr ⟨hlength, ih⟩)]
  | array _ ih => rw [display, display, ih]

/-! ## Arrays of named references -/

theorem array_arrays (r : Reference) (rank : Nat) :
    (array r).arrays rank = r.arrays (rank + 1) := by
  induction rank with
  | zero => rfl
  | succ rank ih => rw [arrays, ih]; rfl

/-- Every reference is a named one at the bottom of arrays. -/
theorem exists_arrays_named (r : Reference) :
    ∃ name rs rank, r = (named name rs).arrays rank := by
  induction r with
  | named name rs _ => exact ⟨name, rs, 0, rfl⟩
  | array r ih =>
    obtain ⟨name, rs, rank, rfl⟩ := ih
    exact ⟨name, rs, rank + 1, rfl⟩

theorem Spelled.of_arrays (h : (r.arrays rank).Spelled) : r.Spelled := by
  induction rank with
  | zero => exact h
  | succ rank ih => exact ih h.element

theorem Rel.arrays (h : Rel R r s) (rank : Nat) : Rel R (r.arrays rank) (s.arrays rank) := by
  induction rank with
  | zero => exact h
  | succ rank ih => exact .array ih

/-! ## Reading a display from the left -/

/-- The text does not go on with the name that stands before it. -/
def NameEnds (cs : List Char) : Prop := ∀ c ∈ cs.head?, Token.isBaseChar c = false

/-- The text does not go on with the named reference that stands before it. -/
def NamedEnds (cs : List Char) : Prop := NameEnds cs ∧ ∀ c ∈ cs.head?, c ≠ '<'

/-- The text does not go on with the reference that stands before it. -/
def Ends (cs : List Char) : Prop := NamedEnds cs ∧ ∀ c ∈ cs.head?, c ≠ '['

theorem ends_nil : Ends [] := by simp [Ends, NamedEnds, NameEnds]

theorem namedEnds_marks (h : Ends k) (rank : Nat) : NamedEnds (Token.marks rank ++ k) := by
  cases rank with
  | zero => exact h.1
  | succ rank => simp [Token.marks, NamedEnds, NameEnds, Token.isBaseChar]

theorem nameEnds_bracketed (h : NamedEnds k) (rs : List Reference) :
    NameEnds ((bracketed rs).toList ++ k) := by
  cases rs with
  | nil => exact h.1
  | cons r rs => simp [bracketed, NameEnds, Token.isBaseChar]

/-- Behind an argument another one follows, or the bracket closes. -/
theorem ends_displayMore (rs : List Reference) (k : List Char) :
    Ends ((displayMore rs).toList ++ '>' :: k) := by
  cases rs <;> simp [displayMore, Ends, NamedEnds, NameEnds, Token.isBaseChar]

theorem NameEnds.takeWhile_eq_nil (h : NameEnds k) : k.takeWhile Token.isBaseChar = [] := by
  cases k with
  | nil => rfl
  | cons c k => exact List.takeWhile_cons_of_neg (by simp [h c rfl])

theorem base_append_inj (hb : Token.IsBase base) (hb' : Token.IsBase base') (hk : NameEnds k)
    (hl : NameEnds l) (he : base ++ k = base' ++ l) : base = base' ∧ k = l := by
  have htake := congrArg (List.takeWhile Token.isBaseChar) he
  rw [List.takeWhile_append_of_pos hb.2, List.takeWhile_append_of_pos hb'.2,
    hk.takeWhile_eq_nil, hl.takeWhile_eq_nil, List.append_nil, List.append_nil] at htake
  subst htake
  exact ⟨rfl, List.append_cancel_left he⟩

theorem marks_append_inj (hk : Ends k) (hl : Ends l)
    (he : Token.marks rank ++ k = Token.marks rank' ++ l) : rank = rank' ∧ k = l := by
  induction rank generalizing rank' with
  | zero =>
    cases rank' with
    | zero => exact ⟨rfl, he⟩
    | succ rank' =>
      obtain rfl : k = '[' :: ']' :: (Token.marks rank' ++ l) := he
      exact absurd rfl (hk.2 '[' rfl)
  | succ rank ih =>
    cases rank' with
    | zero =>
      obtain rfl : '[' :: ']' :: (Token.marks rank ++ k) = l := he
      exact absurd rfl (hl.2 '[' rfl)
    | succ rank' =>
      obtain ⟨rfl, hkl⟩ := ih (List.cons.inj (List.cons.inj he).2).2
      exact ⟨rfl, hkl⟩

/-- Wherever a text begins with the display of the reference, in any number of arrays, and with
that of another one, and goes on with neither, the two are the same up to arity suffixes. -/
def Unambiguous (r : Reference) : Prop :=
  ∀ {s rank k l}, r.Spelled → s.Spelled → Ends k → Ends l →
    (r.arrays rank).display.toList ++ k = s.display.toList ++ l →
      SameBases (r.arrays rank) s ∧ k = l

/-- The case of no array around the reference. -/
theorem Unambiguous.sameBases (hu : Unambiguous r) (hr : r.Spelled) (hs : s.Spelled) (hk : Ends k)
    (hl : Ends l) (he : r.display.toList ++ k = s.display.toList ++ l) : SameBases r s ∧ k = l :=
  hu hr hs hk hl (show (r.arrays 0).display.toList ++ k = _ from he)

theorem arguments_inj (hrs : ∀ q ∈ r :: rs, Unambiguous q) (hr : ∀ q ∈ r :: rs, q.Spelled)
    (hs : ∀ q ∈ s :: ss, q.Spelled)
    (he : r.display.toList ++ ((displayMore rs).toList ++ '>' :: k) =
      s.display.toList ++ ((displayMore ss).toList ++ '>' :: l)) :
    List.Forall₂ SameBases (r :: rs) (s :: ss) ∧ k = l := by
  induction rs generalizing r s ss with
  | nil =>
    obtain ⟨hrel, hmore⟩ := Unambiguous.sameBases (hrs r List.mem_cons_self)
      (hr r List.mem_cons_self) (hs s List.mem_cons_self) (ends_displayMore _ _)
      (ends_displayMore _ _) he
    cases ss with
    | nil => exact ⟨.cons hrel .nil, (List.cons.inj hmore).2⟩
    | cons => simp [displayMore] at hmore
  | cons q rs ih =>
    obtain ⟨hrel, hmore⟩ := Unambiguous.sameBases (hrs r List.mem_cons_self)
      (hr r List.mem_cons_self) (hs s List.mem_cons_self) (ends_displayMore _ _)
      (ends_displayMore _ _) he
    cases ss with
    | nil => simp [displayMore] at hmore
    | cons q' ss =>
      simp only [displayMore, String.toList_append, List.append_assoc] at hmore
      obtain ⟨hall, hkl⟩ := ih (fun q hq => hrs q (List.mem_cons_of_mem _ hq))
        (fun q hq => hr q (List.mem_cons_of_mem _ hq))
        (fun q hq => hs q (List.mem_cons_of_mem _ hq)) (List.append_cancel_left hmore)
      exact ⟨.cons hrel hall, hkl⟩

theorem bracketed_inj (hrs : ∀ q ∈ rs, Unambiguous q) (hr : ∀ q ∈ rs, q.Spelled)
    (hs : ∀ q ∈ ss, q.Spelled) (hk : NamedEnds k) (hl : NamedEnds l)
    (he : (bracketed rs).toList ++ k = (bracketed ss).toList ++ l) :
    List.Forall₂ SameBases rs ss ∧ k = l := by
  cases rs with
  | nil =>
    cases ss with
    | nil => exact ⟨.nil, he⟩
    | cons s ss =>
      obtain rfl : k = _ := he
      exact absurd rfl (hk.2 '<' (by simp [bracketed]))
  | cons r rs =>
    cases ss with
    | nil =>
      obtain rfl : _ = l := he
      exact absurd rfl (hl.2 '<' (by simp [bracketed]))
    | cons s ss =>
      simp only [bracketed, String.toList_append, List.append_assoc] at he
      exact arguments_inj hrs hr hs (List.append_cancel_left he)

theorem unambiguous (r : Reference) : Unambiguous r := by
  induction r with
  | array r ih =>
    intro s rank k l hr hs hk hl he
    rw [array_arrays] at he ⊢
    exact ih hr.element hs hk hl he
  | named name rs ih =>
    intro s rank k l hr hs hk hl he
    obtain ⟨name', ss, rank', rfl⟩ := s.exists_arrays_named
    have hs' := hs.of_arrays
    have hbase : Token.IsBase (stripArity name).toList := by
      cases hr with
      | named hname => exact hname.isBase_stripArity
    have hbase' : Token.IsBase (stripArity name').toList := by
      cases hs' with
      | named hname => exact hname.isBase_stripArity
    simp only [display_arrays, Token.toList_marked, display_named, String.toList_append,
      List.append_assoc] at he
    have hend := namedEnds_marks hk rank
    have hend' := namedEnds_marks hl rank'
    -- from the left: the name, the arguments, the markers
    obtain ⟨hname, hrest⟩ := base_append_inj hbase hbase' (nameEnds_bracketed hend rs)
      (nameEnds_bracketed hend' ss) he
    obtain ⟨hrel, hmarks⟩ := bracketed_inj ih hr.arguments hs'.arguments hend hend' hrest
    obtain ⟨rfl, rfl⟩ := marks_append_inj hk hl hmarks
    have hnames : stripArity name = stripArity name' := String.toList_inj.mp hname
    have hnamed : SameBases (named name rs) (named name' ss) :=
      rel_named_iff.mpr ⟨hnames, hrel⟩
    exact ⟨hnamed.arrays rank, rfl⟩

/-- Spelled references are displayed alike if they are the same up to arity suffixes. -/
theorem Spelled.display_eq_iff (hr : r.Spelled) (hs : s.Spelled) :
    r.display = s.display ↔ r.mapNames stripArity = s.mapNames stripArity := by
  rw [mapNames_eq_iff]
  constructor
  · intro h
    have he : (r.arrays 0).display.toList ++ [] = s.display.toList ++ [] := by rw [arrays, h]
    exact (unambiguous r hr hs ends_nil ends_nil he).1
  · exact display_eq_of_sameBases

/-- The displayed form of a decoded reference tells all of it but its arity suffixes. -/
theorem display_eq_iff_of_decode {tokens tokens' : List String} (h : decode tokens = .ok (some r))
    (h' : decode tokens' = .ok (some s)) :
    r.display = s.display ↔ r.mapNames stripArity = s.mapNames stripArity :=
  (spelled_of_decode h).display_eq_iff (spelled_of_decode h')

/-- Numbers with leading zeros are not shown, and neither are the blank ends of tokens. -/
theorem display_eq_iff_of_decode_pairs :
    let r := Reference.named "Pair`2" [.named "List`1" [.leaf "Int32"], .array (.leaf "User`0")]
    let s := Reference.named "Pair`02" [.named "List`01" [.leaf "Int32"], .array (.leaf "User")]
    decode ["Pair`2", "List`1", "Int32", "User`0[]"] = .ok (some r) ∧
      decode [" Pair`02", "List`01", "Int32", "User[]\n"] = .ok (some s) ∧
      r.display = s.display ∧ r.mapNames stripArity = s.mapNames stripArity := by
  intro r s
  have h : decode ["Pair`2", "List`1", "Int32", "User`0[]"] = .ok (some r) := rfl
  have h' : decode [" Pair`02", "List`01", "Int32", "User[]\n"] = .ok (some s) := rfl
  have hdisplay : r.display = s.display := by decide
  exact ⟨h, h', hdisplay, (display_eq_iff_of_decode h h').mp hdisplay⟩

end Reference
end SchemaGraph
