import SchemaGraph.Proofs.Reference.Spelling

/-! # Decodable prefixes

Every token tells how many references follow it, so a list of tokens spells one reference in at
most one of its prefixes. What becomes of the list is settled by this prefix: whether it is the
whole list, stops short of it, or does not exist. -/

namespace SchemaGraph

theorem Token.isMalformed_of_parse {text : String} {e : DecodeError}
    (h : Token.parse text = .error e) : e.isMalformed = true := by
  rw [parse, ofChars] at h
  split at h
  split at h
  · split at h
    · cases h
    · split at h
      · cases h
      · cases h; rfl
  · cases h; rfl

namespace Reference

variable {tokens p q rest : List String} {r : Reference} {rs : List Reference} {size n : Nat}
  {e : DecodeError}

/-- The prefix is not empty, and it is decoded. -/
def DecodablePrefix (p tokens : List String) : Prop :=
  p <+: tokens ∧ p ≠ [] ∧ ∃ x, decode p = .ok x

/-! ## Reading one reference -/

theorem isMalformed_of_readMany (h : readMany size tokens n = (.error e, rest)) :
    e.isMalformed = true := by
  induction tokens generalizing n with
  | nil =>
    cases n with
    | zero => cases h
    | succ n => cases h; rfl
  | cons text tokens ih =>
    cases n with
    | zero => cases h
    | succ n =>
      rw [readMany] at h
      split at h
      · next ht => cases h; exact Token.isMalformed_of_parse ht
      · split at h
        · split at h
          · cases h; rfl
          · split at h
            · cases h
            · next hmore => cases h; exact ih hmore
        · split at h
          · cases h
          · next hmore => cases h; exact ih hmore

/-- One reference is read off a list whose prefix is decoded to it. -/
theorem readMany_one_eq_ok :
    readMany size tokens 1 = (.ok [r], rest) ↔
      ∃ p, tokens = p ++ rest ∧ decode p = .ok (some r) := by
  constructor
  · intro h
    obtain ⟨hwf, p, hp, hread⟩ := (spelledBefore_of_readMany h).2
    rw [tokensAll, tokensAll, List.append_nil] at hread
    exact ⟨p, hp, decode_of_map_trimmed (hwf r List.mem_cons_self) hread⟩
  · intro h
    obtain ⟨p, hp, hdecode⟩ := h
    obtain ⟨hwf, q, hq, hread⟩ := spelledBefore_of_decode hdecode
    rw [List.append_nil] at hq
    exact readMany_of_spelledBefore ⟨hwf, p, hp, hq ▸ hread⟩

theorem decode_of_readMany_error (htokens : tokens ≠ [])
    (h : readMany tokens.length tokens 1 = (.error e, rest)) : decode tokens = .error e := by
  cases tokens with
  | nil => exact absurd rfl htokens
  | cons token more => simp only [decode, read, h]

theorem decode_of_readMany_ok (htokens : tokens ≠ [])
    (h : readMany tokens.length tokens 1 = (.ok [r], rest)) (hrest : rest ≠ []) :
    decode tokens = .error (.leftover r.display (tokens.length - rest.length) rest) := by
  cases tokens with
  | nil => exact absurd rfl htokens
  | cons token more =>
    cases rest with
    | nil => exact absurd rfl hrest
    | cons next after => simp only [decode, read, h]

/-! ## One prefix decides -/

theorem DecodablePrefix.exists_append (h : DecodablePrefix p tokens) :
    ∃ r rest, tokens = p ++ rest ∧ decode p = .ok (some r) := by
  obtain ⟨⟨rest, hrest⟩, hp, x, hx⟩ := h
  cases x with
  | none => exact absurd (decode_eq_none.mp hx) hp
  | some r => exact ⟨r, rest, hrest.symm, hx⟩

/-- No decoded list is a proper prefix of another. -/
theorem DecodablePrefix.unique (hp : DecodablePrefix p tokens) (hq : DecodablePrefix q tokens) :
    p = q := by
  obtain ⟨r, rest, hrest, hr⟩ := hp.exists_append
  obtain ⟨s, rest', hrest', hs⟩ := hq.exists_append
  have hread : readMany tokens.length tokens 1 = (.ok [r], rest) :=
    readMany_one_eq_ok.mpr ⟨p, hrest, hr⟩
  have hread' : readMany tokens.length tokens 1 = (.ok [s], rest') :=
    readMany_one_eq_ok.mpr ⟨q, hrest', hs⟩
  rw [hread] at hread'
  cases hread'
  exact List.append_cancel_right (hrest ▸ hrest')

/-- Behind a decoded list nothing may follow. -/
theorem decode_append (h : decode p = .ok (some r)) (hrest : rest ≠ []) :
    decode (p ++ rest) = .error (.leftover r.display p.length rest) := by
  have hp : p ≠ [] := (decode_eq_some_iff_readMany.mp h).1
  have hread : readMany (p ++ rest).length (p ++ rest) 1 = (.ok [r], rest) :=
    readMany_one_eq_ok.mpr ⟨p, rfl, h⟩
  rw [decode_of_readMany_ok (List.append_ne_nil_of_left_ne_nil hp rest) hread hrest,
    List.length_append, Nat.add_sub_cancel]

/-- A list without a decodable prefix is malformed. -/
theorem decode_malformed (htokens : tokens ≠ []) (hnone : ∀ p, ¬ DecodablePrefix p tokens) :
    ∃ e, decode tokens = .error e ∧ e.isMalformed = true := by
  rcases hread : readMany tokens.length tokens 1 with ⟨e | rs, rest⟩
  · exact ⟨e, decode_of_readMany_error htokens hread, isMalformed_of_readMany hread⟩
  · obtain ⟨r, rfl⟩ := List.length_eq_one_iff.mp (spelledBefore_of_readMany hread).1
    obtain ⟨p, rfl, hp⟩ := readMany_one_eq_ok.mp hread
    have hne : p ≠ [] := (decode_eq_some_iff_readMany.mp hp).1
    exact absurd ⟨List.prefix_append p rest, hne, _, hp⟩ (hnone p)

theorem DecodablePrefix.decode_of_ne (h : DecodablePrefix p tokens) (hp : p ≠ tokens) :
    ∃ e, decode tokens = .error e ∧ e.isMalformed = false := by
  obtain ⟨r, rest, rfl, hr⟩ := h.exists_append
  have hrest : rest ≠ [] := by
    intro hnil
    rw [hnil, List.append_nil] at hp
    exact hp rfl
  exact ⟨_, decode_append hr hrest, rfl⟩

/-- At most one prefix of a token list is decoded, and it settles what becomes of a list that is not
empty. The list is decoded if it is this prefix, out of order if the prefix is shorter, whatever
the tokens behind it, and malformed if there is none. -/
theorem decode_classified (htokens : tokens ≠ []) :
    (∀ p q, DecodablePrefix p tokens → DecodablePrefix q tokens → p = q) ∧
      ((∃ x, decode tokens = .ok x) ↔ ∃ p, DecodablePrefix p tokens ∧ p = tokens) ∧
      ((∃ e, decode tokens = .error e ∧ e.isMalformed = false) ↔
        ∃ p, DecodablePrefix p tokens ∧ p ≠ tokens) ∧
      ((∃ e, decode tokens = .error e ∧ e.isMalformed = true) ↔
        ∀ p, ¬ DecodablePrefix p tokens) := by
  -- a list that is not decoded is no decodable prefix of itself
  have hproper : ∀ {e p}, decode tokens = .error e → DecodablePrefix p tokens → p ≠ tokens := by
    intro e p he ⟨_, _, x, hx⟩ hp
    rw [hp, he] at hx
    cases hx
  have hone : ∀ {e e'}, decode tokens = .error e → e.isMalformed = false →
      decode tokens = .error e' → e'.isMalformed = true → False := by
    intro e e' he hleft he' hmalformed
    rw [he] at he'
    cases he'
    rw [hleft] at hmalformed
    cases hmalformed
  refine ⟨fun _ _ hp hq => hp.unique hq, ⟨?_, ?_⟩, ⟨?_, ?_⟩, ⟨?_, decode_malformed htokens⟩⟩
  · intro hx
    exact ⟨tokens, ⟨List.prefix_refl tokens, htokens, hx⟩, rfl⟩
  · intro ⟨p, ⟨_, _, hx⟩, hp⟩
    exact hp ▸ hx
  · intro ⟨e, he, hleft⟩
    by_contra hno
    have hnone : ∀ p, ¬ DecodablePrefix p tokens := fun p hp => hno ⟨p, hp, hproper he hp⟩
    obtain ⟨e', he', hmalformed⟩ := decode_malformed htokens hnone
    exact hone he hleft he' hmalformed
  · intro ⟨p, hp, hne⟩
    exact hp.decode_of_ne hne
  · intro ⟨e, he, hmalformed⟩ p hp
    obtain ⟨e', he', hleft⟩ := hp.decode_of_ne (hproper he hp)
    exact hone he' hleft he hmalformed

/-- Behind a complete reference the tokens are not even looked at. -/
theorem decode_classified_complete :
    let tokens := ["List`1", " Int32[]", "``", "["]
    let p := ["List`1", " Int32[]"]
    tokens ≠ [] ∧ DecodablePrefix p tokens ∧ (∀ q, DecodablePrefix q tokens → q = p) ∧
      ∃ e, decode tokens = .error e ∧ e.isMalformed = false := by
  intro tokens p
  have htokens : tokens ≠ [] := List.cons_ne_nil _ _
  have hp : DecodablePrefix p tokens := ⟨⟨["``", "["], rfl⟩, List.cons_ne_nil _ _, _, rfl⟩
  obtain ⟨hunique, -, hleft, -⟩ := decode_classified htokens
  exact ⟨htokens, hp, fun q hq => hunique q p hq hp, hleft.mpr ⟨p, hp, by decide⟩⟩

end Reference
end SchemaGraph
