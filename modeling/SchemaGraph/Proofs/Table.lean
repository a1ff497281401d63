import Mathlib.Data.List.Infix
import Mathlib.Data.List.Nodup
import SchemaGraph.Proofs.Text.ByteOrder
import SchemaGraph.Table

/-! # Tables by their contents

A table whose keys are distinct is known by its look-ups, up to the order of its entries; sorted
by keys it is known altogether. -/

namespace SchemaGraph

namespace Table

variable {α β : Type} {t u : Table α} {key k : String} {a : α}

/-- An entry is replaced where it stands. -/
theorem put_append_of_mem (h : key ∈ t.keys) : put key a (t ++ u) = put key a t ++ u := by
  induction t with
  | nil => cases h
  | cons e t ih =>
    by_cases hk : e.1 = key
    · simp [put, hk]
    · have hkey : key ∈ keys t := (List.mem_cons.mp h).resolve_left (Ne.symm hk)
      simp [put, hk, ih hkey]

theorem put_append_of_not_mem (h : key ∉ t.keys) : put key a (t ++ u) = t ++ put key a u := by
  induction t with
  | nil => rfl
  | cons e t ih =>
    rw [keys_cons, List.mem_cons, not_or] at h
    simp [put, Ne.symm h.1, ih h.2]

theorem put_of_not_mem (h : key ∉ t.keys) : put key a t = t ++ [(key, a)] := by
  have happend := put_append_of_not_mem (a := a) (u := []) h
  rwa [List.append_nil] at happend

theorem mem_of_get? (h : t.get? k = some a) : (k, a) ∈ t := by
  induction t with
  | nil => cases h
  | cons e t ih =>
    rw [get?] at h
    split at h
    · next hk => cases h; subst hk; exact List.mem_cons_self
    · exact List.mem_cons_of_mem _ (ih h)

theorem get?_eq_some_iff (hd : t.keys.Nodup) : t.get? k = some a ↔ (k, a) ∈ t := by
  refine ⟨mem_of_get?, fun h => ?_⟩
  induction t with
  | nil => cases h
  | cons e t ih =>
    rw [keys_cons, List.nodup_cons] at hd
    rcases List.mem_cons.mp h with rfl | h
    · simp [get?]
    · have hk : e.1 ≠ k := fun he => hd.1 (he ▸ List.mem_map_of_mem h)
      rw [get?, if_neg hk, ih hd.2 h]

theorem get?_append (t u : Table α) (k : String) :
    get? k (t ++ u) = (get? k t).or (get? k u) := by
  induction t with
  | nil => rfl
  | cons e t ih =>
    rw [List.cons_append, get?, get?]
    split
    · rfl
    · exact ih

theorem get?_of_prefix (h : t <+: u) (ha : t.get? k = some a) : u.get? k = some a := by
  obtain ⟨v, rfl⟩ := h
  rw [get?_append, ha, Option.some_or]

/-! ## Entries put in turn -/

/-- Entries that are put in turn leave their keys in the order in which each comes first. -/
theorem keys_foldl_put (es t : Table α) :
    keys (es.foldl (fun t e => put e.1 e.2 t) t) =
      keys t ++ ((keys es).filter fun k => k ∉ keys t).eraseDups := by
  induction es generalizing t with
  | nil => simp
  | cons e es ih =>
    rw [List.foldl_cons, ih, keys_put, keys_cons]
    by_cases he : e.1 ∈ keys t
    · simp [he]
    · have hlater : ((keys es).filter fun k => k ∉ keys t ++ [e.1]) =
          ((keys es).filter fun k => k ∉ keys t).filter fun k => !k == e.1 := by
        rw [List.filter_filter]
        congr 1
        funext k
        by_cases hk : k = e.1 <;> simp [hk]
      rw [if_neg he, hlater, List.filter_cons_of_pos (by simpa using he), List.eraseDups_cons,
        List.append_assoc, List.singleton_append]

/-- Of the entries that are put in turn under one key the last stays. -/
theorem get?_foldl_put (es t : Table α) (k : String) :
    get? k (es.foldl (fun t e => put e.1 e.2 t) t) = (get? k es.reverse).or (get? k t) := by
  induction es generalizing t with
  | nil => rfl
  | cons e es ih =>
    rw [List.foldl_cons, ih, get?_put, List.reverse_cons, get?_append, Option.or_assoc]
    congr 1
    by_cases hk : k = e.1
    · simp [get?, hk]
    · simp [get?, hk, Ne.symm hk]

theorem keys_ofList (es : Table α) : keys (ofList es) = (keys es).eraseDups := by
  rw [ofList, keys_foldl_put]
  simp

theorem get?_ofList (es : Table α) (k : String) : get? k (ofList es) = get? k es.reverse := by
  rw [ofList, get?_foldl_put]
  simp [get?]

theorem get?_ofList_append (es fs : Table α) (k : String) :
    get? k (ofList (es ++ fs)) = (get? k (ofList fs)).or (get? k (ofList es)) := by
  simp only [get?_ofList, List.reverse_append, get?_append]

theorem nodup_keys_ofList (es : Table α) : (keys (ofList es)).Nodup := by
  have h : ∀ t : Table α, t.keys.Nodup → (keys (es.foldl (fun t e => put e.1 e.2 t) t)).Nodup := by
    induction es with
    | nil => exact fun t ht => ht
    | cons e es ih => exact fun t ht => ih _ (nodup_keys_put ht)
  exact h [] List.nodup_nil

theorem mem_of_mem_ofList {es : Table α} {e : String × α} (h : e ∈ ofList es) : e ∈ es := by
  have hget := (get?_eq_some_iff (nodup_keys_ofList es)).mpr h
  rw [get?_ofList] at hget
  exact List.mem_reverse.mp (mem_of_get? hget)

theorem ofList_of_nodup {es : Table α} (h : (keys es).Nodup) : ofList es = es := by
  have hput : ∀ t : Table α, (keys (t ++ es)).Nodup →
      es.foldl (fun t e => put e.1 e.2 t) t = t ++ es := by
    clear h
    induction es with
    | nil => exact fun t _ => (List.append_nil t).symm
    | cons e es ih =>
      intro t ht
      have happend : t ++ e :: es = (t ++ [e]) ++ es := by rw [List.append_assoc]; rfl
      have hnew : e.1 ∉ keys t := by
        intro he
        rw [keys, List.map_append, List.nodup_append] at ht
        exact ht.2.2 _ he _ List.mem_cons_self rfl
      rw [happend] at ht ⊢
      rw [List.foldl_cons, put_of_not_mem hnew, ih _ ht]
  exact hput [] h

/-- A table with distinct keys is known by its keys in order and its look-ups. -/
theorem eq_of_get?_eq (hd : t.keys.Nodup) (hk : t.keys = u.keys) (h : ∀ k, t.get? k = u.get? k) :
    t = u := by
  induction t generalizing u with
  | nil => cases u <;> simp_all
  | cons e t ih =>
    cases u with
    | nil => cases hk
    | cons f u =>
      rw [keys_cons, keys_cons, List.cons.injEq] at hk
      rw [keys_cons, List.nodup_cons] at hd
      obtain ⟨key, a⟩ := e
      obtain ⟨key', b⟩ := f
      obtain ⟨rfl, hkeys⟩ := hk
      have hab : a = b := by simpa [get?] using h key
      rw [hab, ih hd.2 hkeys fun k => ?_]
      by_cases hkey : key = k
      · have h₁ : ¬ (get? k t).isSome := fun hs => hd.1 (hkey ▸ mem_keys_iff_get?.mpr hs)
        have h₂ : ¬ (get? k u).isSome := fun hs => hd.1 (hkeys ▸ hkey ▸ mem_keys_iff_get?.mpr hs)
        simp_all
      · simpa [get?, hkey] using h k

/-! ## Tables of other values -/

def mapValues (f : α → β) (t : Table α) : Table β := t.map fun e => (e.1, f e.2)

@[simp] theorem keys_mapValues (f : α → β) (t : Table α) : (t.mapValues f).keys = t.keys := by
  simp [mapValues, keys, Function.comp_def]

theorem mem_mapValues {f : α → β} {b : β} : (k, b) ∈ t.mapValues f ↔ ∃ a, (k, a) ∈ t ∧ f a = b := by
  simp [mapValues]

theorem get?_mapValues (f : α → β) (t : Table α) (k : String) :
    (t.mapValues f).get? k = (t.get? k).map f := by
  induction t with
  | nil => rfl
  | cons e t ih =>
    obtain ⟨key, a⟩ := e
    by_cases hk : key = k
    · simp [mapValues, get?, hk]
    · simpa [mapValues, get?, hk] using ih

/-! ## Tables with equal contents -/

theorem keys_perm (h : t.Perm u) : t.keys.Perm u.keys := h.map _

theorem get?_of_perm (h : t.Perm u) (hd : t.keys.Nodup) (k : String) : t.get? k = u.get? k := by
  have hd' : u.keys.Nodup := (keys_perm h).nodup hd
  ext a
  rw [get?_eq_some_iff hd, get?_eq_some_iff hd', h.mem_iff]

theorem perm_of_get?_eq (ht : t.keys.Nodup) (hu : u.keys.Nodup)
    (h : ∀ k, t.get? k = u.get? k) : t.Perm u := by
  rw [List.perm_ext_iff_of_nodup (ht.of_map _) (hu.of_map _)]
  rintro ⟨k, a⟩
  rw [← get?_eq_some_iff ht, ← get?_eq_some_iff hu, h]

/-- The entries in ascending order of their keys. -/
def sorted (t : Table α) : Table α := t.mergeSort fun a b => a.1 ≤ b.1

theorem sorted_perm (t : Table α) : t.sorted.Perm t := List.mergeSort_perm ..

theorem mem_sorted {e : String × α} : e ∈ t.sorted ↔ e ∈ t := (sorted_perm t).mem_iff

theorem nodup_keys_sorted (hd : t.keys.Nodup) : t.sorted.keys.Nodup :=
  (keys_perm (sorted_perm t)).symm.nodup hd

theorem pairwise_sorted (t : Table α) : t.sorted.Pairwise fun a b => a.1 ≤ b.1 :=
  Text.pairwise_mergeSort Prod.fst t

theorem pairwise_bytes_sorted (hd : t.keys.Nodup) :
    t.sorted.keys.Pairwise fun k l => Text.bytes k < Text.bytes l := by
  have hle : t.sorted.keys.Pairwise (· ≤ ·) := List.pairwise_map.mpr (pairwise_sorted t)
  refine (hle.and (nodup_keys_sorted hd)).imp fun ⟨hkl, hne⟩ => ?_
  exact Text.bytes_lt_iff.mpr (String.not_le.mp fun hlk => hne (String.le_antisymm hkl hlk))

/-- Sorting forgets the order in which entries were put. -/
theorem sorted_eq_of_perm (h : t.Perm u) (hd : t.keys.Nodup) : t.sorted = u.sorted := by
  have hp : t.sorted.Perm u.sorted := (sorted_perm t).trans (h.trans (sorted_perm u).symm)
  refine hp.eq_of_pairwise ?_ (pairwise_sorted t) (pairwise_sorted u)
  rintro ⟨k, a⟩ ⟨l, b⟩ ha hb hkl hlk
  obtain rfl : k = l := String.le_antisymm hkl hlk
  have ha' := (get?_eq_some_iff hd).mpr ((sorted_perm t).mem_iff.mp ha)
  have hb' := (get?_eq_some_iff hd).mpr (h.mem_iff.mpr ((sorted_perm u).mem_iff.mp hb))
  rw [ha'] at hb'
  cases hb'
  rfl

end Table
end SchemaGraph
