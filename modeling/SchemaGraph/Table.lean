/-! # Tables

Lists of entries under distinct keys, in the order in which the keys were first put. -/

namespace SchemaGraph

/-- Entries in order of insertion. -/
abbrev Table (α : Type) := List (String × α)

namespace Table

variable {α : Type}

def keys (t : Table α) : List String := t.map Prod.fst

/-- The first entry under a key. -/
def get? (key : String) : Table α → Option α
  | [] => none
  | (k, a) :: t => if k = key then some a else get? key t

/-- Puts an entry: an entry under the key is replaced where it stands, else the new one comes
last. -/
def put (key : String) (a : α) : Table α → Table α
  | [] => [(key, a)]
  | (k, b) :: t => if k = key then (key, a) :: t else (k, b) :: put key a t

def ofList (entries : List (String × α)) : Table α :=
  entries.foldl (fun t e => put e.1 e.2 t) []

@[simp] theorem keys_nil : keys ([] : Table α) = [] := rfl

@[simp] theorem keys_cons (e : String × α) (t : Table α) : keys (e :: t) = e.1 :: keys t := rfl

theorem keys_put (key : String) (a : α) (t : Table α) :
    (put key a t).keys = if key ∈ t.keys then t.keys else t.keys ++ [key] := by
  induction t with
  | nil => simp [put]
  | cons e t ih =>
    obtain ⟨k, b⟩ := e
    by_cases h : k = key
    · simp [put, h]
    · have h' : ¬ key = k := fun e => h e.symm
      simp only [put, if_neg h, keys_cons, ih, List.mem_cons, h', false_or]
      split <;> simp

theorem nodup_keys_put {key : String} {a : α} {t : Table α} (h : t.keys.Nodup) :
    (put key a t).keys.Nodup := by
  rw [keys_put]
  split
  · exact h
  · rename_i hk
    rw [List.nodup_append]
    refine ⟨h, by simp, ?_⟩
    rintro k hk' _ hl rfl
    simp only [List.mem_singleton] at hl
    exact hk (hl ▸ hk')

theorem get?_put (key : String) (a : α) (t : Table α) (k : String) :
    (put key a t).get? k = if k = key then some a else t.get? k := by
  induction t with
  | nil => simp [put, get?, eq_comm]
  | cons e t ih =>
    obtain ⟨k', b⟩ := e
    by_cases h : k' = key
    · subst h
      by_cases hk : k = k' <;> simp [put, get?, hk, eq_comm]
    · by_cases hk : k = key
      · subst hk
        simp [put, get?, h, ih]
      · simp [put, get?, h, ih, hk]

theorem mem_keys_iff_get? {key : String} {t : Table α} :
    key ∈ t.keys ↔ (t.get? key).isSome := by
  induction t with
  | nil => simp [get?]
  | cons e t ih =>
    obtain ⟨k, b⟩ := e
    by_cases h : k = key
    · simp [get?, h]
    · have h' : ¬ key = k := fun e => h e.symm
      simp [get?, h, h', ih]

end Table
end SchemaGraph
