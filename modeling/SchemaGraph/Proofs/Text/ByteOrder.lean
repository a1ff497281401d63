import Mathlib.Data.Char

/-! # The order of texts

Texts are ordered by their characters. Their bytes in UTF-8 are in the same order, since a smaller
character has the smaller byte where its bytes first differ from those of a greater one. -/

namespace SchemaGraph.Text

open String (utf8EncodeChar)

variable {α : Type} {c d : Char} {s t : String} {m n : Nat} {k l : List UInt8}

/-- The bytes of a text in UTF-8. -/
def bytes (s : String) : List UInt8 := s.toUTF8.data.toList

theorem bytes_eq_flatMap (s : String) : bytes s = s.toList.flatMap utf8EncodeChar := by
  rw [bytes, String.toUTF8_eq_toByteArray, ← String.utf8Encode_toList, List.utf8Encode,
    List.toList_data_toByteArray]

/-! ## Characters -/

theorem ofNat_lt_ofNat_iff (hm : m < 256) (hn : n < 256) :
    UInt8.ofNat m < UInt8.ofNat n ↔ m < n := by
  rw [UInt8.lt_iff_toNat_lt, UInt8.toNat_ofNat', UInt8.toNat_ofNat', Nat.mod_eq_of_lt hm,
    Nat.mod_eq_of_lt hn]

theorem ofNat_eq_ofNat_iff (hm : m < 256) (hn : n < 256) :
    UInt8.ofNat m = UInt8.ofNat n ↔ m = n := by
  rw [← UInt8.toNat_inj, UInt8.toNat_ofNat', UInt8.toNat_ofNat', Nat.mod_eq_of_lt hm,
    Nat.mod_eq_of_lt hn]

theorem val_lt (c : Char) : c.val.toNat < 0x110000 := by
  rcases c.valid with h | ⟨-, h⟩
  · exact Nat.lt_trans h (by decide)
  · exact h

/-- The bytes of a smaller character are smaller, whatever follows them. -/
theorem utf8EncodeChar_append_lt (h : c < d) (k l : List UInt8) :
    utf8EncodeChar c ++ k < utf8EncodeChar d ++ l := by
  have hlt : c.val.toNat < d.val.toNat := h
  have hd := val_lt d
  rw [utf8EncodeChar, utf8EncodeChar]
  generalize c.val.toNat = m at *
  generalize d.val.toNat = n at *
  have hdigits (x : Nat) : x / 4096 = x / 64 / 64 ∧ x / 262144 = x / 64 / 64 / 64 := by omega
  simp only [hdigits]
  -- each character has one to four bytes
  split_ifs <;>
    simp (disch := omega) only [List.cons_append, List.nil_append, List.cons_lt_cons_iff,
      ofNat_lt_ofNat_iff, ofNat_eq_ofNat_iff] <;>
    omega

/-! ## Texts -/

theorem append_lt_append_iff (u : List UInt8) : u ++ k < u ++ l ↔ k < l := by
  induction u with
  | nil => rfl
  | cons b u ih =>
    rw [List.cons_append, List.cons_append, List.cons_lt_cons_iff, ih]
    simp [UInt8.lt_irrefl]

theorem flatMap_utf8EncodeChar_lt_iff (cs ds : List Char) :
    cs.flatMap utf8EncodeChar < ds.flatMap utf8EncodeChar ↔ cs < ds := by
  induction cs generalizing ds with
  | nil =>
    cases ds with
    | nil => simp
    | cons d ds =>
      obtain ⟨b, k, hb⟩ := List.exists_cons_of_ne_nil (String.utf8EncodeChar_ne_nil (c := d))
      simp [hb]
  | cons c cs ih =>
    cases ds with
    | nil => simp
    | cons d ds =>
      rw [List.flatMap_cons, List.flatMap_cons, List.cons_lt_cons_iff]
      rcases lt_trichotomy c d with h | rfl | h
      · exact iff_of_true (utf8EncodeChar_append_lt h _ _) (.inl h)
      · rw [append_lt_append_iff, ih]
        simp
      · refine iff_of_false (List.lt_asymm (utf8EncodeChar_append_lt h _ _)) ?_
        rintro (h' | ⟨rfl, -⟩)
        · exact lt_asymm h h'
        · exact lt_irrefl _ h

/-- Texts are in the order of their bytes. -/
theorem bytes_lt_iff : bytes s < bytes t ↔ s < t := by
  rw [bytes_eq_flatMap, bytes_eq_flatMap, flatMap_utf8EncodeChar_lt_iff, String.lt_iff]

theorem bytes_le_iff : bytes s ≤ bytes t ↔ s ≤ t := by
  rw [← List.not_lt, bytes_lt_iff, String.not_lt]

/-! ## Sorting -/

/-- Sorting by names puts names in ascending order. -/
theorem pairwise_mergeSort (name : α → String) (as : List α) :
    (as.mergeSort fun a b => name a ≤ name b).Pairwise fun a b => name a ≤ name b := by
  let le (a b : α) : Bool := name a ≤ name b
  have htrans : ∀ a b d, le a b = true → le b d = true → le a d = true := by
    intro a b d hab hbd
    simpa [le] using String.le_trans (by simpa [le] using hab) (by simpa [le] using hbd)
  have htotal : ∀ a b, (le a b || le b a) = true := by
    intro a b
    simpa [le] using String.le_total (name a) (name b)
  simpa [le] using List.pairwise_mergeSort htrans htotal as

end SchemaGraph.Text
