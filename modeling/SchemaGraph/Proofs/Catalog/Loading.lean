import SchemaGraph.Proofs.Catalog.Reachable

/-! # What catalogs take in

A descriptor is refused if its name is blank or taken, and a load ends with the first descriptor
that is refused. Whatever is inserted or loaded, a catalog grows at its end by what it takes in and
is left alone otherwise, so its names stay as they ought to be (`WellNamed.addAll`). -/

namespace SchemaGraph

namespace Text

/-- All characters are blank. -/
def Blank (s : String) : Prop := ∀ c ∈ s.toList, isBlank c = true

instance : DecidablePred Blank := fun s => List.decidableBAll (isBlank · = true) s.toList

theorem trim_eq_nil_iff {cs : List Char} : trim cs = [] ↔ ∀ c ∈ cs, isBlank c = true := by
  rw [trim, List.reverse_eq_nil_iff, List.dropWhile_eq_nil_iff]
  constructor
  · intro h c hc
    rw [← List.takeWhile_append_dropWhile (p := isBlank) (l := cs), List.mem_append] at hc
    rcases hc with hc | hc
    · exact List.mem_takeWhile_imp hc
    · exact h c (List.mem_reverse.mpr hc)
  · intro h c hc
    exact h c ((List.dropWhile_sublist _).subset (List.mem_reverse.mp hc))

theorem not_blank_append {s : String} (h : ¬ Blank s) (t : String) : ¬ Blank (s ++ t) := by
  refine mt (fun hst c hc => hst c ?_) h
  rw [String.toList_append]
  exact List.mem_append_left _ hc

end Text

namespace Catalog

variable {c c' : Catalog} {d : Descriptor} {ds before after : List Descriptor} {e : CatalogError}
  {f : Format} {source text : String} {taken : List String}

def names (c : Catalog) : List String := c.types.map (·.name)

/-! ## Refused descriptors -/

/-- Why a descriptor is refused where some names are taken. -/
inductive Refused (taken : List String) (d : Descriptor) : CatalogError → Prop
  | unnamed (hblank : Text.Blank d.name) : Refused taken d .unnamed
  | duplicate (hblank : ¬ Text.Blank d.name) (h : d.name ∈ taken) :
    Refused taken d (.duplicate d.name)

/-- None of the descriptors is refused: their names are distinct, not blank and not taken. -/
structure Admitted (taken : List String) (ds : List Descriptor) : Prop where
  nonblank : ∀ d ∈ ds, ¬ Text.Blank d.name
  fresh : ∀ d ∈ ds, d.name ∉ taken
  nodup : (ds.map (·.name)).Nodup

theorem refused_iff : (∃ e, Refused taken d e) ↔ Text.Blank d.name ∨ d.name ∈ taken := by
  constructor
  · rintro ⟨e, h | ⟨-, h⟩⟩
    · exact .inl h
    · exact .inr h
  · intro h
    by_cases hblank : Text.Blank d.name
    · exact ⟨_, .unnamed hblank⟩
    · exact ⟨_, .duplicate hblank (h.resolve_left hblank)⟩

theorem admitted_nil : Admitted taken [] := ⟨by simp, by simp, List.nodup_nil⟩

theorem admitted_cons :
    Admitted taken (d :: ds) ↔
      (¬ ∃ e, Refused taken d e) ∧ Admitted (taken ++ [d.name]) ds := by
  rw [refused_iff, not_or]
  constructor
  · intro ⟨hblank, hfresh, hnodup⟩
    rw [List.forall_mem_cons] at hblank hfresh
    rw [List.map_cons, List.nodup_cons] at hnodup
    refine ⟨⟨hblank.1, hfresh.1⟩, hblank.2, fun x hx hmem => ?_, hnodup.2⟩
    rcases List.mem_append.mp hmem with hmem | hmem
    · exact hfresh.2 x hx hmem
    · exact hnodup.1 (List.mem_singleton.mp hmem ▸ List.mem_map_of_mem hx)
  · intro ⟨⟨hblank, hfresh⟩, h⟩
    refine ⟨List.forall_mem_cons.mpr ⟨hblank, h.nonblank⟩,
      List.forall_mem_cons.mpr ⟨hfresh, fun x hx hmem => ?_⟩, ?_⟩
    · exact h.fresh x hx (List.mem_append_left _ hmem)
    · rw [List.map_cons, List.nodup_cons]
      refine ⟨fun hmem => ?_, h.nodup⟩
      obtain ⟨x, hx, hname⟩ := List.mem_map.mp hmem
      exact h.fresh x hx (List.mem_append_right _ (List.mem_singleton.mpr hname))

/-- The descriptors in front of the first that is refused. -/
def acceptable (taken : List String) : List Descriptor → List Descriptor
  | [] => []
  | d :: ds =>
    if Text.Blank d.name ∨ d.name ∈ taken then [] else d :: acceptable (taken ++ [d.name]) ds

theorem acceptable_of_refused (h : Refused taken d e) : acceptable taken (d :: after) = [] := by
  rw [acceptable, if_pos (refused_iff.mp ⟨e, h⟩)]

theorem acceptable_append (h : Admitted taken before) (ds : List Descriptor) :
    acceptable taken (before ++ ds) = before ++ acceptable (taken ++ before.map (·.name)) ds := by
  induction before generalizing taken with
  | nil => simp
  | cons d before ih =>
    obtain ⟨hd, hbefore⟩ := admitted_cons.mp h
    rw [List.cons_append, acceptable, if_neg (mt refused_iff.mpr hd), ih hbefore]
    simp

theorem admitted_acceptable (taken : List String) (ds : List Descriptor) :
    Admitted taken (acceptable taken ds) := by
  induction ds generalizing taken with
  | nil => exact admitted_nil
  | cons d ds ih =>
    rw [acceptable]
    split
    · exact admitted_nil
    · next h => exact admitted_cons.mpr ⟨mt refused_iff.mp h, ih _⟩

/-! ## Insertions and loads -/

theorem insert_cases (c : Catalog) (d : Descriptor) :
    (¬ ∃ e, Refused c.names d e) ∧ c.insert d = .ok { c with types := c.types ++ [d] } ∨
      ∃ e, Refused c.names d e ∧ c.insert d = .error e := by
  by_cases hblank : Text.Blank d.name
  · have htrim : Text.trim d.name.toList = [] := Text.trim_eq_nil_iff.mpr hblank
    exact .inr ⟨_, .unnamed hblank, by rw [insert, htrim]; rfl⟩
  · have htrim : Text.trim d.name.toList ≠ [] := mt Text.trim_eq_nil_iff.mp hblank
    by_cases hd : d.name ∈ c.names
    · obtain ⟨x, hx, hname⟩ := List.mem_map.mp hd
      have hfind : (c.find? d.name).isSome := List.find?_isSome.mpr ⟨x, hx, by simp [hname]⟩
      exact .inr ⟨_, .duplicate hblank hd, by simp [insert, htrim, hfind]⟩
    · refine .inl ⟨?_, insert_of_fresh htrim hd⟩
      rw [refused_iff, not_or]
      exact ⟨hblank, hd⟩

/-- Descriptors are taken in up to the first that is refused. -/
theorem insertAll_cases (c : Catalog) (ds : List Descriptor) :
    Admitted c.names ds ∧ c.insertAll ds = (.ok (), { c with types := c.types ++ ds }) ∨
      ∃ before d after e, ds = before ++ d :: after ∧ Admitted c.names before ∧
        Refused (c.names ++ before.map (·.name)) d e ∧
        c.insertAll ds = (.error e, { c with types := c.types ++ before }) := by
  induction ds generalizing c with
  | nil => exact .inl ⟨admitted_nil, by rw [insertAll, List.append_nil]⟩
  | cons d ds ih =>
    rcases c.insert_cases d with ⟨hd, hinsert⟩ | ⟨e, he, hinsert⟩
    · have hnames : names { c with types := c.types ++ [d] } = c.names ++ [d.name] := by
        simp [names]
      rcases ih { c with types := c.types ++ [d] } with ⟨hds, hall⟩ |
        ⟨before, x, after, e, rfl, hbefore, hx, hall⟩
      · rw [hnames] at hds
        refine .inl ⟨admitted_cons.mpr ⟨hd, hds⟩, ?_⟩
        simp only [insertAll, hinsert, hall]
        simp
      · rw [hnames] at hbefore hx
        refine .inr ⟨d :: before, x, after, e, rfl, admitted_cons.mpr ⟨hd, hbefore⟩, ?_, ?_⟩
        · simpa using hx
        · simp only [insertAll, hinsert, hall]
          simp
    · refine .inr ⟨[], d, ds, e, rfl, admitted_nil, by simpa using he, ?_⟩
      simp [insertAll, hinsert]

/-- A load takes in all descriptors of its text or those in front of the first that is refused, and
lists its source in the first case only. -/
theorem load_cases (c : Catalog) (source : String) (h : readTypes f text = .ok ds) :
    Admitted c.names ds ∧ c.load f source text = (.ok ds.length,
        { c with types := c.types ++ ds, sources := c.sources ++ [source] }) ∨
      ∃ before d after e, ds = before ++ d :: after ∧ Admitted c.names before ∧
        Refused (c.names ++ before.map (·.name)) d e ∧
        c.load f source text = (.error e, { c with types := c.types ++ before }) := by
  have hload : c.load f source text = c.absorb source ds := by rw [load, h]
  rcases c.insertAll_cases ds with ⟨hds, hall⟩ | ⟨before, d, after, e, hds, hbefore, hd, hall⟩
  · exact .inl ⟨hds, by rw [hload, absorb, hall]⟩
  · exact .inr ⟨before, d, after, e, hds, hbefore, hd, by rw [hload, absorb, hall]⟩

theorem load_of_unreadable {cause : ReadError} (c : Catalog) (source : String)
    (h : readTypes f text = .error cause) :
    c.load f source text = (.error (.unreadable source f cause), c) := by
  rw [load, h]

/-! ## Runs of additions -/

/-- What is done to add types to a catalog. -/
inductive Addition where
  | insert (d : Descriptor)
  | load (f : Format) (source text : String)

/-- The descriptors that an addition offers. A text that cannot be read offers none. -/
def Addition.offered : Addition → List Descriptor
  | .insert d => [d]
  | .load f _ text =>
    match readTypes f text with
    | .ok ds => ds
    | .error _ => []

/-- Makes an addition, whatever becomes of it. -/
def add (c : Catalog) : Addition → Catalog
  | .insert d =>
    match c.insert d with
    | .ok c => c
    | .error _ => c
  | .load f source text => (c.load f source text).2

/-- Makes additions one after another. -/
def addAll (c : Catalog) (xs : List Addition) : Catalog := xs.foldl add c

/-- What a catalog takes in of an addition. -/
def accepted (c : Catalog) (x : Addition) : List Descriptor := acceptable c.names x.offered

/-- What a catalog takes in of additions one after another. -/
def acceptedAll (c : Catalog) : List Addition → List Descriptor
  | [] => []
  | x :: xs => c.accepted x ++ (c.add x).acceptedAll xs

theorem accepted_of_admitted {x : Addition} (h : Admitted c.names x.offered) :
    c.accepted x = x.offered := by
  have happend := acceptable_append h []
  rwa [List.append_nil, acceptable, List.append_nil] at happend

theorem accepted_of_refused {x : Addition} (hx : x.offered = before ++ d :: after)
    (hbefore : Admitted c.names before) (hd : Refused (c.names ++ before.map (·.name)) d e) :
    c.accepted x = before := by
  rw [accepted, hx, acceptable_append hbefore, acceptable_of_refused hd, List.append_nil]

theorem accepted_insert_of_refused (h : Refused c.names d e) : c.accepted (.insert d) = [] :=
  acceptable_of_refused h

theorem admitted_singleton (h : ¬ ∃ e, Refused taken d e) : Admitted taken [d] :=
  admitted_cons.mpr ⟨h, admitted_nil⟩

theorem offered_load (source : String) (h : readTypes f text = .ok ds) :
    (Addition.load f source text).offered = ds := by
  rw [Addition.offered, h]

theorem types_add (c : Catalog) (x : Addition) : (c.add x).types = c.types ++ c.accepted x := by
  cases x with
  | insert d =>
    rcases c.insert_cases d with ⟨hd, hinsert⟩ | ⟨e, hd, hinsert⟩
    · rw [add, hinsert, accepted_of_admitted (admitted_singleton hd), Addition.offered]
    · rw [add, hinsert, accepted_insert_of_refused hd, List.append_nil]
  | load f source text =>
    cases hread : readTypes f text with
    | error cause =>
      have hnone : c.accepted (.load f source text) = [] := by
        rw [accepted, Addition.offered, hread, acceptable]
      rw [add, load_of_unreadable c source hread, hnone, List.append_nil]
    | ok ds =>
      have hoffered := offered_load source hread
      rcases c.load_cases source hread with ⟨hds, hload⟩ |
        ⟨before, d, after, e, hds, hbefore, hd, hload⟩
      · rw [add, hload, accepted_of_admitted (hoffered ▸ hds), hoffered]
      · rw [add, hload, accepted_of_refused (hoffered.trans hds) hbefore hd]

/-- A catalog grows at its end by what it takes in. -/
theorem types_addAll (c : Catalog) (xs : List Addition) :
    (c.addAll xs).types = c.types ++ c.acceptedAll xs := by
  induction xs generalizing c with
  | nil => simp [addAll, acceptedAll]
  | cons x xs ih =>
    change ((c.add x).addAll xs).types = _
    rw [ih, types_add, acceptedAll, List.append_assoc]

/-- No name is blank, and none stands for two types. -/
structure WellNamed (c : Catalog) : Prop where
  nonblank : ∀ d ∈ c.types, ¬ Text.Blank d.name
  nodup : c.names.Nodup

theorem wellNamed_empty : empty.WellNamed := ⟨by simp [empty], List.nodup_nil⟩

theorem wellNamed_builtin : builtin.WellNamed := by
  refine ⟨fun d hd => ?_, lawful_builtin.nodup⟩
  have hsystem : ¬ Text.Blank "System." := by decide
  have hgeneric : ¬ Text.Blank "System.Collections.Generic." := by decide
  simp only [builtin, builtinTypes, List.mem_append, List.mem_map] at hd
  obtain (⟨p, -, rfl⟩ | ⟨name, -, rfl⟩) | ⟨name, -, rfl⟩ := hd
  · exact Text.not_blank_append hsystem p.hostName
  all_goals
    exact Text.not_blank_append (Text.not_blank_append (Text.not_blank_append hgeneric name) _) _

theorem WellNamed.add (h : c.WellNamed) (x : Addition) : (c.add x).WellNamed := by
  have hx : Admitted c.names (c.accepted x) := admitted_acceptable _ _
  refine ⟨?_, ?_⟩
  · rw [types_add, List.forall_mem_append]
    exact ⟨h.nonblank, hx.nonblank⟩
  · rw [names, types_add, List.map_append, List.nodup_append]
    refine ⟨h.nodup, hx.nodup, fun name hname name' hname' heq => ?_⟩
    obtain ⟨d, hd, rfl⟩ := List.mem_map.mp hname'
    exact hx.fresh d hd (heq ▸ hname)

theorem WellNamed.addAll (h : c.WellNamed) (xs : List Addition) : (c.addAll xs).WellNamed := by
  induction xs generalizing c with
  | nil => exact h
  | cons x xs ih => exact ih (h.add x)

/-- A catalog grows at its end and by nothing but what it takes in. A load that can read its text
takes in all descriptors there and lists its source, or ends with the first whose name is blank or
taken, by the catalog or before it in the text, and keeps those in front of it; a text that cannot
be read changes nothing. After any insertions and loads, those that fail among them, names are as
they ought to be if they were so before, and behind the types that were there stand the descriptors
taken in since. -/
theorem catalog_grows :
    (∀ (c : Catalog) (f : Format) (source text : String) (ds : List Descriptor),
      readTypes f text = .ok ds →
      let taken := c.accepted (.load f source text)
      Admitted c.names ds ∧ taken = ds ∧ c.load f source text = (.ok ds.length,
          { c with types := c.types ++ ds, sources := c.sources ++ [source] }) ∨
        ∃ d after e, ds = taken ++ d :: after ∧ Admitted c.names taken ∧
          Refused (c.names ++ taken.map (·.name)) d e ∧
          c.load f source text = (.error e, { c with types := c.types ++ taken })) ∧
    (∀ (c : Catalog) (f : Format) (source text : String) (cause : ReadError),
      readTypes f text = .error cause →
      c.load f source text = (.error (.unreadable source f cause), c)) ∧
    (∀ (c : Catalog) (d : Descriptor),
      c.accepted (.insert d) = [d] ∧ c.insert d = .ok { c with types := c.types ++ [d] } ∨
        ∃ e, c.accepted (.insert d) = [] ∧ Refused c.names d e ∧ c.insert d = .error e) ∧
    empty.WellNamed ∧ builtin.WellNamed ∧
    ∀ (c : Catalog) (xs : List Addition),
      (c.WellNamed → (c.addAll xs).WellNamed) ∧
      (c.addAll xs).types = c.types ++ c.acceptedAll xs ∧
      (c.addAll xs).size = c.size + (c.acceptedAll xs).length := by
  refine ⟨?_, fun c f source text cause => load_of_unreadable c source, ?_,
    wellNamed_empty, wellNamed_builtin, fun c xs => ⟨fun h => h.addAll xs, c.types_addAll xs, ?_⟩⟩
  · intro c f source text ds hread taken
    have hoffered := offered_load source hread
    rcases c.load_cases source hread with ⟨hds, hload⟩ |
      ⟨before, d, after, e, hds, hbefore, hd, hload⟩
    · exact .inl ⟨hds, (accepted_of_admitted (hoffered ▸ hds)).trans hoffered, hload⟩
    · obtain rfl : taken = before := accepted_of_refused (hoffered.trans hds) hbefore hd
      exact .inr ⟨d, after, e, hds, hbefore, hd, hload⟩
  · intro c d
    rcases c.insert_cases d with ⟨hd, hinsert⟩ | ⟨e, hd, hinsert⟩
    · exact .inl ⟨accepted_of_admitted (admitted_singleton hd), hinsert⟩
    · exact .inr ⟨e, accepted_insert_of_refused hd, hd, hinsert⟩
  · rw [size, types_addAll, List.length_append, size]

/-- A text that describes two types of one name. -/
def twiceText : String :=
  "\x7b\"types\":[\x7b\"name\":\"A\",\"kind\":\"object\"\x7d," ++
  "\x7b\"name\":\"A\",\"kind\":\"object\"\x7d]\x7d"

/-- The second of the types is refused, and so is a text that breaks off. -/
theorem catalog_grows_twice :
    let xs := [.load .json "twice" twiceText, .load .json "broken" "["]
    (empty.addAll xs).WellNamed ∧
      (empty.addAll xs).types = empty.types ++ empty.acceptedAll xs ∧
      (∃ taken d after e, readTypes .json twiceText = .ok (taken ++ d :: after) ∧
        Refused (empty.names ++ taken.map (·.name)) d e ∧
        empty.load .json "twice" twiceText =
          (.error e, { empty with types := empty.types ++ taken })) ∧
      ∃ cause, readTypes .json "[" = .error cause ∧
        builtin.load .json "broken" "[" = (.error (.unreadable "broken" .json cause), builtin) := by
  intro xs
  obtain ⟨hload, hbroken, -, hempty, -, hadd⟩ := catalog_grows
  obtain ⟨hwell, htypes, -⟩ := hadd empty xs
  refine ⟨hwell hempty, htypes, ?_, ?_⟩
  · have hnames : (readTypes .json twiceText).map (fun ds => ds.map (·.name)) = .ok ["A", "A"] := by
      decide +kernel
    cases hread : readTypes .json twiceText with
    | error cause => rw [hread] at hnames; cases hnames
    | ok ds =>
      rw [hread] at hnames
      replace hnames : ds.map (·.name) = ["A", "A"] := Except.ok.inj hnames
      rcases hload empty .json "twice" twiceText ds hread with ⟨hds, -, -⟩ |
        ⟨d, after, e, hds, -, hd, h⟩
      · have hnodup := hds.nodup
        rw [hnames] at hnodup
        exact absurd hnodup (by decide)
      · exact ⟨_, d, after, e, congrArg _ hds, hd, h⟩
  · have hfails : (readTypes .json "[").isOk = false := by decide +kernel
    cases hread : readTypes .json "[" with
    | ok ds => rw [hread] at hfails; cases hfails
    | error cause => exact ⟨cause, rfl, hbroken builtin .json "broken" "[" cause hread⟩

end Catalog
end SchemaGraph
