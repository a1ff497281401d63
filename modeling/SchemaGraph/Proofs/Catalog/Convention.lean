import SchemaGraph.Proofs.Catalog.Resolution

/-! # Conventional names

By convention a full name is a base, and behind it the number of parameters if there are any. Full
names of this kind write an arity in one way only, so they never clash. -/

namespace SchemaGraph

/-- The suffix for a number of parameters: nothing for none, else the number without leading
zeros. -/
def aritySuffix : Nat → List Char
  | 0 => []
  | n + 1 => arityMark :: Nat.toDigits 10 (n + 1)

/-- The full name is a base and the suffix for the number of parameters. -/
def Descriptor.Conventional (d : Descriptor) : Prop :=
  ∃ base, Token.IsBase base ∧ d.name.toList = base ++ aritySuffix d.parameters.length

/-- The types of the catalog are named by convention. -/
def Catalog.Conventional (c : Catalog) : Prop := ∀ d ∈ c.types, d.Conventional

variable {d e : Descriptor} {n m : Nat} {stem s w base : List Char}
  {name : String} {c : Catalog}

theorem numeral_toDigits (n : Nat) : Token.numeral (Nat.toDigits 10 n) = n := by
  have hfold : Token.numeral (Nat.toDigits 10 n) = Nat.ofDigitChars 10 (Nat.toDigits 10 n) 0 := by
    simp only [Token.numeral, Nat.ofDigitChars, Nat.mul_comm]
  rw [hfold, Nat.ofDigitChars_ten_toDigits]

theorem Token.IsSuffix.eq_of_aritySuffix (h : Token.IsSuffix (aritySuffix m) n) : m = n := by
  cases m with
  | zero => cases h; rfl
  | succ m =>
    rw [aritySuffix] at h
    cases h
    exact (numeral_toDigits (m + 1)).symm

theorem stripArity_aritySuffix (hb : Token.IsBase base)
    (hname : name.toList = base ++ aritySuffix n) : (stripArity name).toList = base := by
  cases n with
  | zero => exact Token.stripArity_append hb .none hname
  | succ n =>
    have hdigits : ∀ c ∈ Nat.toDigits 10 (n + 1), c.isDigit = true :=
      fun c hc => Nat.isDigit_of_mem_toDigits (by omega) (by omega) hc
    exact Token.stripArity_append hb (.digits Nat.toDigits_ne_nil hdigits) hname

/-- In a conventional name the base is what remains without the suffix. -/
theorem Descriptor.conventional_iff :
    d.Conventional ↔ Token.IsBase (stripArity d.name).toList ∧
      d.name.toList = (stripArity d.name).toList ++ aritySuffix d.parameters.length := by
  constructor
  · intro ⟨base, hb, hname⟩
    rw [stripArity_aritySuffix hb hname]
    exact ⟨hb, hname⟩
  · intro ⟨hb, hname⟩
    exact ⟨_, hb, hname⟩

instance : DecidablePred Descriptor.Conventional :=
  fun _ => decidable_of_iff' _ Descriptor.conventional_iff

instance (c : Catalog) : Decidable c.Conventional :=
  inferInstanceAs (Decidable (∀ d ∈ c.types, d.Conventional))

/-- A name that is found takes as many arguments as its type has parameters. -/
theorem Descriptor.Conventional.length_parameters (hd : d.Conventional)
    (h : c.Found w base s n d) : d.parameters.length = n := by
  obtain ⟨-, hname⟩ := Descriptor.conventional_iff.mp hd
  rw [h.name, h.stripArity] at hname
  have hs := h.isSuffix
  rw [List.append_cancel_left hname] at hs
  exact hs.eq_of_aritySuffix

/-- A suffix that ends a conventional name is written by convention. -/
theorem Descriptor.Conventional.suffix_eq (h : d.Conventional) (hs : Token.IsSuffix s n)
    (hne : s ≠ []) (hname : d.name.toList = stem ++ s) : s = aritySuffix n ∧ 0 < n := by
  obtain ⟨base, hbase, hd⟩ := h
  cases hs with
  | none => exact absurd rfl hne
  | @digits ds =>
    cases hn : d.parameters.length with
    | zero =>
      rw [hn, aritySuffix, List.append_nil, hname] at hd
      exact absurd (hd ▸ by simp) (hbase.not_mem Token.isBaseChar_arityMark)
    | succ n =>
      rw [hn, aritySuffix, hname] at hd
      have hdigits : arityMark ∉ Nat.toDigits 10 (n + 1) := by
        intro hm
        have hdigit := Nat.isDigit_of_mem_toDigits (by omega) (by omega) hm
        rw [Token.isDigit_arityMark] at hdigit
        cases hdigit
      -- there is one mark in the name only
      have hds : ds = Nat.toDigits 10 (n + 1) := by
        rcases List.append_eq_append_iff.mp hd with ⟨a, ha, htail⟩ | ⟨a, -, htail⟩
        · cases a with
          | nil => exact (List.cons.inj htail).2
          | cons x a =>
            obtain ⟨rfl, -⟩ := List.cons.inj htail
            exact absurd (ha ▸ by simp) (hbase.not_mem Token.isBaseChar_arityMark)
        · cases a with
          | nil => exact (List.cons.inj htail).2.symm
          | cons x a =>
            obtain ⟨-, htail⟩ := List.cons.inj htail
            exact absurd (htail ▸ by simp) hdigits
      rw [hds, numeral_toDigits]
      exact ⟨rfl, Nat.succ_pos n⟩

theorem Descriptor.Conventional.not_clash (hd : d.Conventional) (he : e.Conventional) :
    ¬ d.Clash e := by
  rintro ⟨z, stem, s, t, n, -, hs, ht, hst, hdname, hename⟩
  by_cases hsnil : s = []
  · subst hsnil
    obtain ⟨-, hpos⟩ := he.suffix_eq ht hst.symm hename
    cases hs
    exact absurd hpos (Nat.lt_irrefl 0)
  · obtain ⟨hs', hpos⟩ := hd.suffix_eq hs hsnil hdname
    by_cases htnil : t = []
    · subst htnil
      cases ht
      exact absurd hpos (Nat.lt_irrefl 0)
    · obtain ⟨ht', -⟩ := he.suffix_eq ht htnil hename
      exact hst (hs'.trans ht'.symm)

end SchemaGraph
