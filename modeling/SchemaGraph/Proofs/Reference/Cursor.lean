import SchemaGraph.Proofs.Reference.Prefixes

/-! # Reading from a cursor

All arguments of a reference, at any depth, are read from one cursor. Whatever becomes of a
reading, the cursor moves forward in its list and not beyond the end, and it stands still only
there. A reference is read where the unread tokens begin with a spelling of it and nowhere else,
and the cursor moves over just this spelling (`read_of_decode`, `decode_of_read`). So what follows
plays no part, and references that are spelled one after another are read one after another. -/

namespace SchemaGraph

namespace Reference

variable {tokens unread rest p : List String} {text : String} {r : Reference}
  {rs : List Reference} {size n : Nat}

/-! ## Spellings as they are written out -/

theorem map_trimmed_tokensAll (h : ∀ r ∈ rs, r.tokens.map Text.trimmed = r.tokens) :
    (tokensAll rs).map Text.trimmed = tokensAll rs := by
  induction rs with
  | nil => rfl
  | cons r rs ih =>
    rw [List.forall_mem_cons] at h
    rw [tokensAll, List.map_append, h.1, ih h.2]

/-- The tokens that spell a well-formed reference have no blank ends. -/
theorem WellFormed.map_trimmed_tokens (h : r.WellFormed) :
    r.tokens.map Text.trimmed = r.tokens := by
  induction r with
  | named name arguments ih =>
    obtain ⟨hname, -, harguments⟩ := wellFormed_named.mp h
    have hall := map_trimmed_tokensAll fun r hr => ih r hr (harguments r hr)
    rw [Reference.tokens, List.map_cons, hname.trimmed, hall]
  | array element =>
    obtain ⟨name, rank, hname, he⟩ := h.exists_arrays_leaf (.inl rfl)
    rw [he, tokens_arrays_leaf, List.map_singleton, hname.trimmed_marked]

theorem WellFormed.decode_tokens (h : r.WellFormed) : decode r.tokens = .ok (some r) :=
  decode_of_map_trimmed h h.map_trimmed_tokens

/-! ## What reading leaves -/

/-- The first token counts as read, whatever becomes of it and of those behind it. -/
theorem readMany_cons_suffix (hmore : ∀ n, (readMany size unread n).2 <:+ unread) :
    (readMany size (text :: unread) (n + 1)).2 <:+ unread := by
  rw [readMany]
  split
  · exact List.suffix_refl unread
  · next t _ =>
    split
    · split
      · exact List.suffix_refl unread
      · have hrest := hmore n
        split <;> next h => rwa [h] at hrest
    · have hrest := hmore (t.arity + n)
      split <;> next h => rwa [h] at hrest

/-- Reading leaves an end of the list, also where it fails. -/
theorem readMany_suffix (size : Nat) (unread : List String) (n : Nat) :
    (readMany size unread n).2 <:+ unread := by
  induction unread generalizing n with
  | nil => cases n <;> exact List.suffix_refl []
  | cons text unread ih =>
    cases n with
    | zero => exact List.suffix_refl _
    | succ n => exact (readMany_cons_suffix ih).trans (List.suffix_cons text unread)

/-- Reading takes tokens off the front of the list, and one at least if there are any. -/
theorem exists_read_append (size : Nat) (unread : List String) :
    ∃ p, unread = p ++ (read size unread).2 ∧ (unread ≠ [] → p ≠ []) := by
  have hread : (read size unread).2 = (readMany size unread 1).2 := by
    rw [read]
    split <;> next h => rw [h]
  rw [hread]
  cases unread with
  | nil => exact ⟨[], rfl, absurd rfl⟩
  | cons text unread =>
    have hsuffix : (readMany size (text :: unread) 1).2 <:+ unread :=
      readMany_cons_suffix (readMany_suffix size unread)
    obtain ⟨p, hp⟩ := hsuffix
    exact ⟨text :: p, by rw [List.cons_append, hp], fun _ => List.cons_ne_nil text p⟩

theorem read_eq_ok :
    read size unread = (.ok r, rest) ↔ ∃ p, unread = p ++ rest ∧ decode p = .ok (some r) := by
  have hone : readMany size unread 1 = (.ok [r], rest) ↔
      ∃ p, unread = p ++ rest ∧ decode p = .ok (some r) := readMany_one_eq_ok
  rw [← hone, read]
  rcases hmany : readMany size unread 1 with ⟨e | rs, rest'⟩
  · simp
  · obtain ⟨q, rfl⟩ := List.length_eq_one_iff.mp (spelledBefore_of_readMany hmany).1
    simp

end Reference

namespace Cursor

open Reference (decode tokensAll)

variable {c : Cursor} {tokens p rest : List String} {r : Reference} {rs : List Reference}
  {m n : Nat}

/-- The cursor behind the next `n` tokens. -/
def skip (c : Cursor) (n : Nat) : Cursor := ⟨c.position + n, c.unread.drop n⟩

/-- Reads `n` references one after another, whatever becomes of each. -/
def reads : Cursor → Nat → List (Except DecodeError Reference) × Cursor
  | c, 0 => ([], c)
  | c, n + 1 =>
    let (answer, c) := c.read
    let (answers, c) := c.reads n
    (answer :: answers, c)

/-- The cursor stands in the list: what it has not read is what the list holds from its position
on. -/
structure In (c : Cursor) (tokens : List String) : Prop where
  position_le : c.position ≤ tokens.length
  unread_eq : c.unread = tokens.drop c.position

theorem in_ofList (tokens : List String) : (ofList tokens).In tokens where
  position_le := Nat.zero_le _
  unread_eq := rfl

theorem In.remaining_eq (h : c.In tokens) : c.remaining = tokens.length - c.position := by
  rw [remaining, h.unread_eq, List.length_drop]

theorem In.skip (h : c.In tokens) (hn : n ≤ c.remaining) : (c.skip n).In tokens where
  position_le := by
    have hposition := h.position_le
    rw [h.remaining_eq] at hn
    change c.position + n ≤ tokens.length
    omega
  unread_eq := by
    change c.unread.drop n = tokens.drop (c.position + n)
    rw [h.unread_eq, List.drop_drop]

/-- The tokens between the position of the cursor and that behind the next ones. -/
theorem In.extract_skip (h : c.In tokens) (hp : p <+: c.unread) :
    tokens.extract c.position (c.skip p.length).position = p := by
  have hlength : (c.skip p.length).position - c.position = p.length := Nat.add_sub_cancel_left ..
  rw [List.extract_eq_take_drop, hlength, ← h.unread_eq, ← List.prefix_iff_eq_take.mp hp]

/-! ## One reading -/

/-- What is read off the front of the unread tokens is what the cursor moves over. -/
theorem read_eq_skip {x : Except DecodeError Reference} (hp : c.unread = p ++ rest)
    (h : Reference.read (c.position + c.remaining) c.unread = (x, rest)) :
    c.read = (x, c.skip p.length) := by
  have hlength : c.remaining - rest.length = p.length := by
    rw [remaining, hp, List.length_append, Nat.add_sub_cancel]
  have hdrop : c.unread.drop p.length = rest := by rw [hp, List.drop_left]
  simp only [read, h, hlength, skip, hdrop]

/-- A reading moves over unread tokens, and over one at least if there are any. -/
theorem exists_read_skip (c : Cursor) :
    ∃ p, p <+: c.unread ∧ c.read.2 = c.skip p.length ∧ (c.unread ≠ [] → p ≠ []) := by
  rcases h : Reference.read (c.position + c.remaining) c.unread with ⟨x, rest⟩
  obtain ⟨p, hp, hne⟩ := Reference.exists_read_append (c.position + c.remaining) c.unread
  rw [h] at hp
  exact ⟨p, ⟨rest, hp.symm⟩, by rw [read_eq_skip hp h], hne⟩

/-- A reference is read where the unread tokens begin with a list that is decoded to it. -/
theorem read_of_decode (hp : p <+: c.unread) (hr : decode p = .ok (some r)) :
    c.read = (.ok r, c.skip p.length) := by
  obtain ⟨rest, hrest⟩ := hp
  exact read_eq_skip hrest.symm (Reference.read_eq_ok.mpr ⟨p, hrest.symm, hr⟩)

/-- A reference that is read is decoded from the tokens that the cursor moves over. -/
theorem decode_of_read (h : c.read.1 = .ok r) :
    ∃ p, p <+: c.unread ∧ decode p = .ok (some r) ∧ c.read = (.ok r, c.skip p.length) := by
  rcases hread : Reference.read (c.position + c.remaining) c.unread with ⟨x, rest⟩
  have hx : x = .ok r := by simpa only [read, hread] using h
  rw [hx] at hread
  obtain ⟨p, hp, hr⟩ := Reference.read_eq_ok.mp hread
  exact ⟨p, ⟨rest, hp.symm⟩, hr, read_eq_skip hp hread⟩

theorem read_of_unread_eq_nil (h : c.unread = []) :
    c.read = (.error (.tokenExpected c.position), c) := by
  obtain ⟨position, unread⟩ := c
  cases h
  rfl

/-- What a reading does that finds the cursor at one place in a token list and leaves it at
another. -/
structure Advance (tokens : List String) (c : Cursor) (answer : Except DecodeError Reference)
    (c' : Cursor) : Prop where
  /-- The cursor does not move back, nor beyond the end of the list. -/
  position_le : c.position ≤ c'.position
  position_le_length : c'.position ≤ tokens.length
  /-- It moves, unless it is at the end. -/
  position_lt : c.position < tokens.length → c.position < c'.position
  /-- At the end there is nothing to read. -/
  at_end : c.position = tokens.length → answer = .error (.tokenExpected tokens.length) ∧ c' = c
  /-- The tokens between both places spell the reference that is read. -/
  spells : ∀ r, answer = .ok r →
    (tokens.extract c.position c'.position).map Text.trimmed = r.tokens
  /-- It is read wherever the unread tokens begin with these, and the cursor moves over them. -/
  again : ∀ r, answer = .ok r → ∀ d : Cursor, tokens.extract c.position c'.position <+: d.unread →
    d.read = (.ok r, d.skip (c'.position - c.position))

theorem In.position_read_le (h : c.In tokens) : c.read.2.position ≤ tokens.length := by
  obtain ⟨p, hp, hread, -⟩ := c.exists_read_skip
  rw [hread]
  exact (h.skip hp.length_le).position_le

/-- The tokens that a reading moves over are decoded to the reference that is read. -/
theorem In.decode_extract (h : c.In tokens) (hr : c.read.1 = .ok r) :
    decode (tokens.extract c.position c.read.2.position) = .ok (some r) := by
  obtain ⟨p, hp, hdecode, hread⟩ := decode_of_read hr
  rwa [hread, h.extract_skip hp]

/-- Every reading in a list is an advance. -/
theorem In.advance (h : c.In tokens) : Advance tokens c c.read.1 c.read.2 := by
  obtain ⟨p, hp, hread, hne⟩ := c.exists_read_skip
  have hposition : c.read.2.position = c.position + p.length := by rw [hread]; rfl
  have hle : c.read.2.position ≤ tokens.length := h.position_read_le
  have hunread : c.unread = [] ↔ tokens.length ≤ c.position := by
    rw [h.unread_eq, List.drop_eq_nil_iff]
  refine ⟨by omega, hle, ?_, ?_, ?_, ?_⟩
  · intro hlt
    have hpos : 0 < p.length := List.length_pos_iff.mpr (hne (mt hunread.mp hlt.not_ge))
    omega
  · intro hend
    rw [read_of_unread_eq_nil (hunread.mpr hend.ge), hend]
    exact ⟨rfl, rfl⟩
  · intro r hr
    exact Reference.map_trimmed_of_decode (h.decode_extract hr)
  · intro r hr d hd
    have hlength : (tokens.extract c.position c.read.2.position).length =
        c.read.2.position - c.position := by
      rw [List.extract_eq_take_drop, List.length_take, List.length_drop]
      omega
    rw [← hlength]
    exact read_of_decode hd (h.decode_extract hr)

/-! ## Many readings -/

/-- The last of many readings. -/
theorem reads_succ (c : Cursor) (n : Nat) :
    c.reads (n + 1) = ((c.reads n).1 ++ [(c.reads n).2.read.1], (c.reads n).2.read.2) := by
  induction n generalizing c with
  | zero => rfl
  | succ n ih =>
    rw [reads]
    simp only [ih c.read.2]
    rfl

theorem In.reads (h : c.In tokens) (n : Nat) : (c.reads n).2.In tokens := by
  induction n with
  | zero => exact h
  | succ n ih =>
    obtain ⟨p, hp, hread, -⟩ := (c.reads n).2.exists_read_skip
    rw [reads_succ, hread]
    exact ih.skip hp.length_le

theorem In.position_reads_mono (h : c.In tokens) (hmn : m ≤ n) :
    (c.reads m).2.position ≤ (c.reads n).2.position := by
  induction hmn with
  | refl => exact Nat.le_refl _
  | step _ ih =>
    rw [reads_succ]
    exact ih.trans (h.reads _).advance.position_le

/-- References that are spelled one after another are read one after another. -/
theorem reads_of_prefix (hrs : ∀ r ∈ rs, r.WellFormed) (h : tokensAll rs <+: c.unread) :
    c.reads rs.length = (rs.map .ok, c.skip (tokensAll rs).length) := by
  induction rs generalizing c with
  | nil => rfl
  | cons r rs ih =>
    rw [List.forall_mem_cons] at hrs
    rw [tokensAll] at h
    have hread : c.read = (.ok r, c.skip r.tokens.length) :=
      read_of_decode ((List.prefix_append _ _).trans h) hrs.1.decode_tokens
    have hmore : tokensAll rs <+: (c.skip r.tokens.length).unread := by
      obtain ⟨rest, hrest⟩ := h
      refine ⟨rest, ?_⟩
      rw [skip, ← hrest, List.append_assoc, List.drop_left]
    have hskip : (c.skip r.tokens.length).skip (tokensAll rs).length =
        c.skip (tokensAll (r :: rs)).length := by
      simp only [skip, tokensAll, List.length_append, List.drop_drop, Nat.add_assoc]
    rw [List.length_cons, reads, hread]
    simp only [ih hrs.2 hmore, hskip, List.map_cons]

/-- Readings off a token list take spellings away one by one. After any number of them, failed ones
among them, the cursor stands in the list and the next reading is an advance. On the spellings of
well-formed references one after another just these references are read, and then nothing is
left. -/
theorem reads_consume_spellings (tokens : List String) :
    (∀ n, let c := ((ofList tokens).reads n).2
      c.In tokens ∧ c.remaining = tokens.length - c.position ∧
        Advance tokens c c.read.1 c.read.2) ∧
    (∀ m n, m ≤ n →
      ((ofList tokens).reads m).2.position ≤ ((ofList tokens).reads n).2.position) ∧
    ∀ rs, (∀ r ∈ rs, r.WellFormed) → tokensAll rs = tokens →
      (ofList tokens).reads (rs.length + 1) =
        (rs.map .ok ++ [.error (.tokenExpected tokens.length)], ⟨tokens.length, []⟩) := by
  have hin : (ofList tokens).In tokens := in_ofList tokens
  refine ⟨fun n => ?_, fun m n hmn => hin.position_reads_mono hmn, ?_⟩
  · have hn := hin.reads n
    exact ⟨hn, hn.remaining_eq, hn.advance⟩
  · intro rs hrs htokens
    have hall := reads_of_prefix (c := ofList tokens) hrs (htokens ▸ List.prefix_refl _)
    have hskip : (ofList tokens).skip tokens.length = ⟨tokens.length, []⟩ := by
      rw [skip, ofList, Nat.zero_add, List.drop_length]
    rw [htokens, hskip] at hall
    rw [reads_succ, hall]
    rfl

/-- A pair that is read behind a failure, the same pair in front of other tokens, and a list that
is read to its end. -/
theorem reads_consume_spellings_pairs :
    let tokens := ["List`1", "[", "Pair`2", " A ", "B[]"]
    let c := ((ofList tokens).reads 1).2
    let pair := Reference.named "Pair`2" [.leaf "A", .array (.leaf "B")]
    c = ⟨2, ["Pair`2", " A ", "B[]"]⟩ ∧ c.read.1 = .ok pair ∧
      read ⟨7, ["Pair`2", " A ", "B[]", "`"]⟩ = (.ok pair, ⟨10, ["`"]⟩) ∧
      (ofList ["Pair`2", "A", "B[]", "C"]).reads 3 =
        ([.ok pair, .ok (.leaf "C"), .error (.tokenExpected 4)], ⟨4, []⟩) := by
  intro tokens c pair
  have hread : c.read.1 = .ok pair := rfl
  have hadvance := ((reads_consume_spellings tokens).1 1).2.2
  have hwf : ∀ r ∈ [pair, .leaf "C"], r.WellFormed := by
    have hpair : pair.WellFormed :=
      Reference.wellFormed_of_decode (show decode ["Pair`2", "A", "B[]"] = _ from rfl)
    have hleaf : (Reference.leaf "C").WellFormed :=
      Reference.wellFormed_of_decode (show decode ["C"] = _ from rfl)
    simpa using ⟨hpair, hleaf⟩
  refine ⟨rfl, hread, ?_, ?_⟩
  · exact hadvance.again pair hread _ ⟨["`"], rfl⟩
  · exact (reads_consume_spellings ["Pair`2", "A", "B[]", "C"]).2.2 [pair, .leaf "C"] hwf rfl

end Cursor
end SchemaGraph
