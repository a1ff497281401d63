import SchemaGraph.Key

/-! # Keys are read back

Every escape ends where it says it does, so the identity behind a key is read back whole and two
identities never have the same key. The key of an identity is legal unless the identity is empty. -/

namespace SchemaGraph
namespace Key

variable {m n : Nat} {c : Char} {ds : List Char} {s t : String}

/-! ## Hexadecimal digits -/

theorem hex_of_lt (h : n < 16) : hex n = [n.digitChar.toUpper] := by
  rw [hex, Nat.toDigits_of_lt_base h, List.map_singleton]

theorem hex_of_le (h : 16 ≤ n) : hex n = hex (n / 16) ++ hex (n % 16) := by
  rw [hex_of_lt (Nat.mod_lt n (by omega)), hex, Nat.toDigits_of_base_le (by omega) h,
    List.map_append, List.map_singleton, ← hex]

theorem hex_ne_nil (n : Nat) : hex n ≠ [] := by
  by_cases h : n < 16
  · simp [hex_of_lt h]
  · simp [hex_of_le (Nat.le_of_not_lt h), hex_of_lt (Nat.mod_lt n (by omega : 16 > 0))]

/-- What holds of the sixteen digits holds of all digits that are written. -/
theorem forall_mem_hex {P : Char → Prop} (h : ∀ m < 16, P m.digitChar.toUpper) (n : Nat) :
    ∀ c ∈ hex n, P c := by
  induction n using Nat.strongRecOn with
  | ind n ih =>
    by_cases hn : n < 16
    · simpa [hex_of_lt hn] using h n hn
    · have hm : n % 16 < 16 := Nat.mod_lt n (by omega)
      rw [hex_of_le (by omega), hex_of_lt hm]
      intro c hc
      rcases List.mem_append.mp hc with hc | hc
      · exact ih (n / 16) (by omega) c hc
      · exact List.mem_singleton.mp hc ▸ h (n % 16) hm

theorem hexDigit?_digitChar (h : n < 16) : hexDigit? n.digitChar.toUpper = some n := by
  have hall : ∀ m : Fin 16, hexDigit? m.val.digitChar.toUpper = some m.val := by decide
  exact hall ⟨n, h⟩

theorem not_hyphen_of_hexDigit? {d : Nat} (h : hexDigit? c = some d) : (c == '-') = false := by
  rw [beq_eq_false_iff_ne]
  rintro rfl
  have hnone : hexDigit? '-' = none := by decide
  rw [hnone] at h
  cases h

/-- The number that digits of either case make up behind digits of the value `m`. -/
def numberFrom : Nat → List Char → Option Nat
  | m, [] => some m
  | m, c :: cs => (hexDigit? c).bind fun d => numberFrom (m * 16 + d) cs

theorem numberFrom_append (m : Nat) (ds es : List Char) :
    numberFrom m (ds ++ es) = (numberFrom m ds).bind fun n => numberFrom n es := by
  induction ds generalizing m with
  | nil => rfl
  | cons c ds ih => simp only [List.cons_append, numberFrom, ih, Option.bind_assoc]

theorem numberFrom_hex (n : Nat) : numberFrom 0 (hex n) = some n := by
  induction n using Nat.strongRecOn with
  | ind n ih =>
    by_cases h : n < 16
    · simp [hex_of_lt h, numberFrom, hexDigit?_digitChar h]
    · have hm : n % 16 < 16 := Nat.mod_lt n (by omega)
      have hn : n / 16 * 16 + n % 16 = n := Nat.div_add_mod' n 16
      rw [hex_of_le (by omega), numberFrom_append, ih (n / 16) (by omega), hex_of_lt hm]
      simp [numberFrom, hexDigit?_digitChar hm, hn]

/-! ## Reading what was written -/

theorem decodeFrom_inside_append (hds : numberFrom m ds = some n) (cs : List Char) :
    decodeFrom (.inside m) (ds ++ cs) = decodeFrom (.inside n) cs := by
  induction ds generalizing m with
  | nil => cases hds; rfl
  | cons c ds ih =>
    obtain ⟨d, hd, hds⟩ := Option.bind_eq_some_iff.mp hds
    rw [← ih hds, List.cons_append, decodeFrom, not_hyphen_of_hexDigit? hd, hd]
    rfl

theorem escaped?_toNat (hv : isVerbatim c = false) (hc : (c == '-') = false) :
    escaped? c.toNat = some c := by
  have hvalid : c.toNat.isValidChar := c.valid
  simp [escaped?, hvalid, Char.ofNat_toNat, hv, hc]

/-- An escape is read as its character, whatever digits give the code. -/
theorem decodeFrom_escape (hv : isVerbatim c = false) (hc : (c == '-') = false) (hne : ds ≠ [])
    (hds : numberFrom 0 ds = some c.toNat) (cs : List Char) :
    decodeFrom .between ('-' :: ds ++ '-' :: cs) = (decodeFrom .between cs).map (c :: ·) := by
  have hclose : decodeFrom (.inside c.toNat) ('-' :: cs) = (decodeFrom .between cs).map (c :: ·) := by
    simp [decodeFrom, escaped?_toNat hv hc]
  have hhyphen : isVerbatim '-' = false := by decide
  cases ds with
  | nil => exact absurd rfl hne
  | cons d ds =>
    obtain ⟨m, hm, hds⟩ := Option.bind_eq_some_iff.mp hds
    rw [Nat.zero_mul, Nat.zero_add] at hds
    rw [← hclose, ← decodeFrom_inside_append hds]
    simp [decodeFrom, hhyphen, not_hyphen_of_hexDigit? hm, hm]

theorem decodeFrom_encodeChar (c : Char) (cs : List Char) :
    decodeFrom .between (encodeChar c ++ cs) = (decodeFrom .between cs).map (c :: ·) := by
  cases hv : isVerbatim c with
  | true => simp [encodeChar, hv, decodeFrom]
  | false =>
    cases hc : c == '-' with
    | true =>
      obtain rfl : c = '-' := beq_iff_eq.mp hc
      simp [encodeChar, hv, decodeFrom]
    | false =>
      rw [← decodeFrom_escape hv hc (hex_ne_nil _) (numberFrom_hex _)]
      simp [encodeChar, hv, hc]

theorem decodeFrom_flatMap_encodeChar (cs : List Char) :
    decodeFrom .between (cs.flatMap encodeChar) = some cs := by
  induction cs with
  | nil => rfl
  | cons c cs ih => rw [List.flatMap_cons, decodeFrom_encodeChar, ih, Option.map_some]

theorem decode_encode (s : String) : decode (encode s) = some s := by
  rw [decode, encode, String.toList_ofList, decodeFrom_flatMap_encodeChar, Option.map_some,
    String.ofList_toList]

theorem encode_inj : encode s = encode t ↔ s = t := by
  constructor
  · intro h
    have hd := congrArg decode h
    rwa [decode_encode, decode_encode, Option.some_inj] at hd
  · exact congrArg encode

/-! ## Legal keys -/

theorem isLegal_iff {key : String} :
    isLegal key = true ↔ key.toList ≠ [] ∧ ∀ c ∈ key.toList, isVerbatim c = true ∨ c = '-' := by
  simp [isLegal]

theorem encodeChar_ne_nil (c : Char) : encodeChar c ≠ [] := by
  rw [encodeChar]
  split
  · simp
  · split <;> simp

theorem isVerbatim_of_mem_hex (h : c ∈ hex n) : isVerbatim c = true := by
  refine forall_mem_hex (P := fun c => isVerbatim c = true) (fun m hm => ?_) n c h
  have hall : ∀ m : Fin 16, isVerbatim m.val.digitChar.toUpper = true := by decide
  exact hall ⟨m, hm⟩

theorem legal_of_mem_encodeChar {d : Char} (h : d ∈ encodeChar c) :
    isVerbatim d = true ∨ d = '-' := by
  rw [encodeChar] at h
  split at h
  · next hv => exact .inl (List.mem_singleton.mp h ▸ hv)
  · split at h
    · exact .inr (by simpa using h)
    · rw [List.cons_append, List.mem_cons, List.mem_append, List.mem_singleton] at h
      rcases h with h | h | h
      · exact .inr h
      · exact .inl (isVerbatim_of_mem_hex h)
      · exact .inr h

theorem isLegal_encode : isLegal (encode s) = true ↔ s ≠ "" := by
  rw [isLegal_iff, encode, String.toList_ofList, ne_eq, List.flatMap_eq_nil_iff]
  constructor
  · rintro ⟨hne, -⟩ rfl
    exact hne (by simp)
  · intro hs
    refine ⟨fun hnil => hs ?_, fun d hd => ?_⟩
    · rw [← String.toList_eq_nil_iff, List.eq_nil_iff_forall_not_mem]
      exact fun c hc => encodeChar_ne_nil c (hnil c hc)
    · obtain ⟨c, -, hd⟩ := List.mem_flatMap.mp hd
      exact legal_of_mem_encodeChar hd

/-- A key stands for its identity: the identity is read back from it, no other has the same key,
and the key is legal as soon as there is something to name. -/
theorem encode_names_identity :
    (∀ s, decode (encode s) = some s) ∧ Function.Injective encode ∧
      ∀ s, isLegal (encode s) = true ↔ s ≠ "" :=
  ⟨decode_encode, fun _ _ h => encode_inj.mp h, fun _ => isLegal_encode⟩

end Key
end SchemaGraph
