import Mathlib.Data.List.Induction
import Mathlib.Data.String.Basic
import SchemaGraph.Proofs.Key

/-! # Escapes in keys

The escapes of a key are written in one way only, with plain digits: in upper case and without
zeros in front. Reading is not as strict. It takes every text that spells an identity with escapes
of any digits, so several texts are read as one identity, of which one is the key. -/

namespace SchemaGraph
namespace Key

variable {n : Nat} {c : Char} {ds k s : List Char} {key identity : String}
  {Admitted : List Char → Prop}

/-- The text spells an identity: a verbatim character as itself, a hyphen doubled, and any other
character between hyphens, by admitted digits that make up its code. -/
inductive Spells (Admitted : List Char → Prop) : List Char → List Char → Prop
  | nil : Spells Admitted [] []
  | verbatim {c : Char} {s k : List Char} (hc : isVerbatim c = true) (h : Spells Admitted s k) :
    Spells Admitted (c :: s) (c :: k)
  | hyphen {s k : List Char} (h : Spells Admitted s k) :
    Spells Admitted ('-' :: s) ('-' :: '-' :: k)
  | escape {c : Char} {ds s k : List Char} (hv : isVerbatim c = false) (hc : c ≠ '-')
    (hne : ds ≠ []) (hds : numberFrom 0 ds = some c.toNat) (hadmitted : Admitted ds)
    (h : Spells Admitted s k) : Spells Admitted (c :: s) ('-' :: ds ++ '-' :: k)

/-- Digits of any kind. -/
def AnyDigits (_ : List Char) : Prop := True

/-- Digits in upper case, without a zero in front of others. -/
structure PlainDigits (ds : List Char) : Prop where
  upper : ∀ d ∈ ds, d.isLower = false
  leading : ds.head? = some '0' → ds = ['0']

/-! ## Plain digits -/

theorem plainDigits_hex (n : Nat) : PlainDigits (hex n) := by
  constructor
  · refine forall_mem_hex (P := fun d => d.isLower = false) (fun m hm => ?_) n
    have hall : ∀ m : Fin 16, m.val.digitChar.toUpper.isLower = false := by decide
    exact hall ⟨m, hm⟩
  · induction n using Nat.strongRecOn with
    | ind n ih =>
      by_cases h : n < 16
      · rw [hex_of_lt h]
        simp
      · intro hzero
        -- the zero would be all that is written of `n / 16`, which is not zero
        rw [hex_of_le (by omega), List.head?_append_of_ne_nil _ (hex_ne_nil _)] at hzero
        have hnum := numberFrom_hex (n / 16)
        rw [ih (n / 16) (by omega) hzero] at hnum
        have hnum0 : numberFrom 0 ['0'] = some 0 := by decide
        rw [hnum0, Option.some_inj] at hnum
        omega

theorem char_le_iff {a b : Char} : a ≤ b ↔ a.toNat ≤ b.toNat := by
  rw [Char.le_def, UInt32.le_iff_toNat_le]
  rfl

/-- A digit that is not in lower case is the one written for its value. -/
theorem digitChar_of_hexDigit? (h : hexDigit? c = some n) (hc : c.isLower = false) :
    n < 16 ∧ n.digitChar.toUpper = c := by
  have hdecimal : ∀ m : Fin 10, m.val.digitChar.toUpper = Char.ofNat ('0'.toNat + m) := by decide
  have hletter : ∀ m : Fin 6, (m.val + 10).digitChar.toUpper = Char.ofNat ('A'.toNat + m) := by
    decide
  rw [hexDigit?] at h
  split at h
  · next hd =>
    cases h
    rw [Char.isDigit_iff_toNat] at hd
    have hlt : c.toNat - '0'.toNat < 10 := by
      have hnine : '9'.toNat = '0'.toNat + 9 := rfl
      omega
    refine ⟨by omega, ?_⟩
    rw [hdecimal ⟨_, hlt⟩, Nat.add_sub_cancel' hd.1, Char.ofNat_toNat]
  · split at h
    · next hd =>
      -- a lower-case digit
      rw [Bool.and_eq_true, decide_eq_true_eq, decide_eq_true_eq] at hd
      have hz : c ≤ 'z' := UInt32.le_trans hd.2 (by decide)
      have hlower : c.isLower = true :=
        (Bool.and_eq_true _ _).mpr ⟨decide_eq_true hd.1, decide_eq_true hz⟩
      rw [hc] at hlower
      cases hlower
    · split at h
      · next hd =>
        cases h
        rw [Bool.and_eq_true, decide_eq_true_eq, decide_eq_true_eq, char_le_iff, char_le_iff] at hd
        have hlt : c.toNat - 'A'.toNat < 6 := by
          have hsix : 'F'.toNat = 'A'.toNat + 5 := rfl
          omega
        refine ⟨by omega, ?_⟩
        rw [hletter ⟨_, hlt⟩, Nat.add_sub_cancel' hd.1, Char.ofNat_toNat]
      · cases h

/-- Plain digits are what is written of their number. -/
theorem PlainDigits.eq_hex (hplain : PlainDigits ds) (hne : ds ≠ [])
    (hds : numberFrom 0 ds = some n) : ds = hex n := by
  induction ds using List.reverseRecOn generalizing n with
  | nil => exact absurd rfl hne
  | append_singleton ds d ih =>
    rw [numberFrom_append] at hds
    obtain ⟨m, hm, hd⟩ := Option.bind_eq_some_iff.mp hds
    obtain ⟨v, hv, hn⟩ := Option.bind_eq_some_iff.mp hd
    cases hn
    obtain ⟨hlt, rfl⟩ := digitChar_of_hexDigit? hv (hplain.upper d (by simp))
    by_cases hnil : ds = []
    · subst hnil
      cases hm
      simp [hex_of_lt hlt]
    · have hhead : ds.head? ≠ some '0' := by
        intro hzero
        have hall := hplain.leading (by rw [List.head?_append_of_ne_nil _ hnil, hzero])
        rcases List.append_eq_singleton_iff.mp hall with ⟨hds, -⟩ | ⟨-, hd⟩
        · exact hnil hds
        · cases hd
      have hplain' : PlainDigits ds :=
        ⟨fun d hd => hplain.upper d (List.mem_append_left _ hd), fun hzero => absurd hzero hhead⟩
      have hds' := ih hplain' hnil hm
      have hpos : m ≠ 0 := by
        rintro rfl
        exact hhead (by rw [hds']; decide)
      have hdiv : (m * 16 + v) / 16 = m := by omega
      have hmod : (m * 16 + v) % 16 = v := by omega
      rw [hex_of_le (by omega), hdiv, hmod, ← hds', hex_of_lt hlt]

/-! ## What is read -/

/-- Behind what was read up to a place, the rest of a text completes a spelling. -/
def Completes : Place → List Char → List Char → Prop
  | .between, s, k => Spells AnyDigits s k
  | .opened, s, k => Spells AnyDigits s ('-' :: k)
  | .inside m, s, k =>
    ∀ ds, ds ≠ [] → numberFrom 0 ds = some m → Spells AnyDigits s ('-' :: ds ++ k)

theorem escaped?_eq_some (h : escaped? n = some c) :
    n = c.toNat ∧ isVerbatim c = false ∧ c ≠ '-' := by
  rw [escaped?] at h
  split at h
  · next hvalid =>
    dsimp only at h
    split at h
    · cases h
    · next hc =>
      cases h
      rw [Bool.or_eq_true, not_or, Bool.not_eq_true, beq_iff_eq] at hc
      exact ⟨by rw [Char.ofNat, dif_pos hvalid]; rfl, hc⟩
  · cases h

theorem completes_of_decodeFrom (place : Place) (h : decodeFrom place k = some s) :
    Completes place s k := by
  induction k generalizing place s with
  | nil =>
    cases place with
    | between => cases h; exact .nil
    | opened => cases h
    | inside m => cases h
  | cons c k ih =>
    cases place with
    | between =>
      rw [decodeFrom] at h
      split at h
      · next hc =>
        obtain ⟨s, hs, rfl⟩ := Option.map_eq_some_iff.mp h
        exact .verbatim hc (ih .between hs)
      · split at h
        · next hc =>
          obtain rfl := beq_iff_eq.mp hc
          exact ih .opened h
        · cases h
    | opened =>
      rw [decodeFrom] at h
      split at h
      · next hc =>
        obtain rfl := beq_iff_eq.mp hc
        obtain ⟨s, hs, rfl⟩ := Option.map_eq_some_iff.mp h
        exact .hyphen (ih .between hs)
      · obtain ⟨d, hd, hs⟩ := Option.bind_eq_some_iff.mp h
        exact ih (.inside d) hs [c] (by simp) (by simp [numberFrom, hd])
    | inside m =>
      intro ds hne hds
      rw [decodeFrom] at h
      split at h
      · next hc =>
        obtain rfl := beq_iff_eq.mp hc
        obtain ⟨e, he, h⟩ := Option.bind_eq_some_iff.mp h
        obtain ⟨s, hs, rfl⟩ := Option.map_eq_some_iff.mp h
        obtain ⟨rfl, hv, hhyphen⟩ := escaped?_eq_some he
        exact .escape hv hhyphen hne hds trivial (ih .between hs)
      · obtain ⟨d, hd, hs⟩ := Option.bind_eq_some_iff.mp h
        -- the digit joins those in front of it
        have hmore := ih (.inside (m * 16 + d)) hs (ds ++ [c]) (by simp)
          (by simp [numberFrom_append, hds, numberFrom, hd])
        simpa using hmore

theorem Spells.decodeFrom (h : Spells Admitted s k) : decodeFrom .between k = some s := by
  induction h with
  | nil => rfl
  | verbatim hc _ ih => rw [Key.decodeFrom, if_pos hc, ih, Option.map_some]
  | hyphen _ ih => simp [Key.decodeFrom, isVerbatim, ih]
  | escape hv hc hne hds _ _ ih =>
    rw [decodeFrom_escape hv (beq_eq_false_iff_ne.mpr hc) hne hds, ih, Option.map_some]

/-- Reading takes the spellings with digits of any kind. -/
theorem decode_eq_some_iff_spells :
    decode key = some identity ↔ Spells AnyDigits identity.toList key.toList := by
  rw [decode, Option.map_eq_some_iff]
  constructor
  · rintro ⟨s, hs, rfl⟩
    rw [String.toList_ofList]
    exact completes_of_decodeFrom .between hs
  · exact fun h => ⟨_, h.decodeFrom, String.ofList_toList⟩

/-! ## What is written -/

theorem spells_flatMap_encodeChar (s : List Char) : Spells PlainDigits s (s.flatMap encodeChar) := by
  induction s with
  | nil => exact .nil
  | cons c s ih =>
    rw [List.flatMap_cons, encodeChar]
    split
    · next hv => exact .verbatim hv ih
    · next hv =>
      split
      · next hc =>
        obtain rfl := beq_iff_eq.mp hc
        exact .hyphen ih
      · next hc =>
        have hescape := Spells.escape (by simpa using hv) (by simpa using hc) (hex_ne_nil c.toNat)
          (numberFrom_hex c.toNat) (plainDigits_hex c.toNat) ih
        simpa using hescape

theorem Spells.eq_flatMap_encodeChar (h : Spells PlainDigits s k) : k = s.flatMap encodeChar := by
  induction h with
  | nil => rfl
  | verbatim hc _ ih => simp [encodeChar, hc, ← ih]
  | hyphen _ ih => simp [encodeChar, isVerbatim, ← ih]
  | escape hv hc hne hds hplain _ ih =>
    simp [encodeChar, hv, hc, ← ih, ← hplain.eq_hex hne hds]

/-- The key of an identity is its spelling with plain digits. -/
theorem encode_eq_iff_spells :
    encode identity = key ↔ Spells PlainDigits identity.toList key.toList := by
  rw [encode, String.ofList_eq]
  constructor
  · intro h
    rw [h.symm]
    exact spells_flatMap_encodeChar _
  · exact fun h => h.eq_flatMap_encodeChar.symm

/-- A text is read as an identity exactly if it spells it with digits of any kind, and is the key
of the identity exactly if it spells it with plain digits. So what is read as an identity is its
key unless one of the escapes in it has a digit in lower case or a zero in front. -/
theorem spells_iff_decode_and_iff_encode (key identity : String) :
    (decode key = some identity ↔ Spells AnyDigits identity.toList key.toList) ∧
      (encode identity = key ↔ Spells PlainDigits identity.toList key.toList) :=
  ⟨decode_eq_some_iff_spells, encode_eq_iff_spells⟩

/-- Two texts that are read as an identity and are not its key. -/
theorem decode_of_not_plain :
    decode "-3c-" = some "<" ∧ decode "-03C-" = some "<" ∧
      encode "<" ≠ "-3c-" ∧ encode "<" ≠ "-03C-" := by
  decide +kernel

end Key
end SchemaGraph
