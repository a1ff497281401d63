import SchemaGraph.Proofs.Compile.Calls

/-! # Returning to a checkpoint

Between a checkpoint and the return to it, keys are reserved, schemas are finalized and references
are compiled. None of this removes or moves an entry that was there at the checkpoint, and only
finalizing its key changes it. So the return leaves the entries that were there, each with the
schema that was last finalized for it since, if any was. -/

namespace SchemaGraph

/-- A change to a registry. -/
inductive Change where
  | reserve (key : String)
  | finalize (key : String) (s : Schema)
  /-- A call, whatever becomes of it. -/
  | call (c : Catalog) (k : Call)

namespace Change

/-- The key that the change finalizes itself, and its schema. -/
def finalized? : Change → Option (String × Schema)
  | .finalize key s => some (key, s)
  | _ => none

/-- The schema that is finalized last for a key, calls apart. -/
def lastSchema? (xs : List Change) (key : String) : Option Schema :=
  (Table.ofList (xs.filterMap finalized?)).get? key

theorem lastSchema?_cons (x : Change) (xs : List Change) (key : String) :
    lastSchema? (x :: xs) key = (lastSchema? xs key).or (lastSchema? [x] key) := by
  have happend : (x :: xs).filterMap finalized? =
      [x].filterMap finalized? ++ xs.filterMap finalized? := List.filterMap_append (l := [x])
  rw [lastSchema?, happend, Table.get?_ofList_append, lastSchema?, lastSchema?]

end Change

namespace Registry

open Change (lastSchema?)

/-- Makes a change. -/
def change (g : Registry) : Change → Registry
  | .reserve key => (g.reserve key).2
  | .finalize key s => g.finalize key s
  | .call c k => (c.call k g).2

/-- Makes changes one after another. -/
def changes (g : Registry) (xs : List Change) : Registry := xs.foldl change g

/-- Makes a change as far as it concerns the entries that are there. -/
def overwrite (g : Registry) : Change → Registry
  | .finalize key s => if key ∈ g.keys then g.finalize key s else g
  | _ => g

def overwrites (g : Registry) (xs : List Change) : Registry := xs.foldl overwrite g

variable {g h : Registry} {k : String}

/-! ## What changes do to the entries that are there -/

theorem le_reserve (g : Registry) (key : String) : g ≤ (g.reserve key).2 := by
  rw [reserve]
  split
  · exact le_refl g
  · next hk => exact le_put (mt contains_iff.mpr hk)

theorem le_call (c : Catalog) (k : Call) (g : Registry) : g ≤ (c.call k g).2 := by
  rcases c.call_cases k g with ⟨r, s, -, -, hr⟩ | ⟨-, hg⟩
  · exact Catalog.compile_le hr
  · exact hg.ge

/-- A change to an extension of a registry extends what it makes of the registry itself. -/
theorem overwrite_le_change (hgh : g ≤ h) (x : Change) : g.overwrite x ≤ h.change x := by
  cases x with
  | reserve key => exact hgh.trans (h.le_reserve key)
  | call c k => exact hgh.trans (le_call c k h)
  | finalize key s =>
    rw [overwrite]
    split
    · next hk => exact finalize_le_finalize hk hgh
    · next hk => exact le_finalize hk hgh

theorem overwrites_le_changes (hgh : g ≤ h) (xs : List Change) :
    g.overwrites xs ≤ h.changes xs := by
  induction xs generalizing g h with
  | nil => exact hgh
  | cons x xs ih => exact ih (overwrite_le_change hgh x)

theorem keys_overwrite (g : Registry) (x : Change) : (g.overwrite x).keys = g.keys := by
  cases x with
  | finalize key s =>
    rw [overwrite]
    split
    · next hk => exact (keys_put ..).trans (if_pos hk)
    · rfl
  | _ => rfl

theorem keys_overwrites (g : Registry) (xs : List Change) : (g.overwrites xs).keys = g.keys := by
  induction xs generalizing g with
  | nil => rfl
  | cons x xs ih => exact (ih (g.overwrite x)).trans (g.keys_overwrite x)

theorem get?_overwrite (hk : k ∈ g.keys) (x : Change) :
    (g.overwrite x).get? k = ((lastSchema? [x] k).map Entry.ready).or (g.get? k) := by
  cases x with
  | finalize key s =>
    by_cases hkey : k = key
    · subst hkey
      simp [overwrite, hk, lastSchema?, Change.finalized?, Table.ofList, Table.put, Table.get?]
    · have hkey' : key ≠ k := Ne.symm hkey
      rw [overwrite]
      split <;>
        simp [hkey, hkey', lastSchema?, Change.finalized?, Table.ofList, Table.put, Table.get?]
  | _ => rfl

/-- Under a key that is there stands the schema that was last finalized for it. -/
theorem get?_overwrites (hk : k ∈ g.keys) (xs : List Change) :
    (g.overwrites xs).get? k = ((lastSchema? xs k).map Entry.ready).or (g.get? k) := by
  induction xs generalizing g with
  | nil => rfl
  | cons x xs ih =>
    have hrest := ih (g := g.overwrite x) (by rwa [keys_overwrite])
    rw [get?_overwrite hk, ← Option.or_assoc, ← Option.map_or, ← Change.lastSchema?_cons] at hrest
    exact hrest

/-! ## Returning -/

theorem rollback_changes (g : Registry) (xs : List Change) :
    (g.changes xs).rollback g.checkpoint = g.overwrites xs := by
  have hsize : g.checkpoint = (g.overwrites xs).checkpoint := by
    have hlength := congrArg List.length (g.keys_overwrites xs)
    simpa [checkpoint, size, keys, Table.keys] using hlength.symm
  rw [hsize]
  exact rollback_checkpoint (overwrites_le_changes (le_refl g) xs)

/-- Returning to a checkpoint restores the keys in their order. An entry is the one that was there,
unless its key was finalized since; then it holds the schema that was finalized last. So all is
restored exactly if nothing that was there was given another entry. -/
theorem rollback_exact (g : Registry) (xs : List Change) :
    let h := (g.changes xs).rollback g.checkpoint
    h.keys = g.keys ∧
      (∀ k ∈ g.keys, h.get? k = ((lastSchema? xs k).map Entry.ready).or (g.get? k)) ∧
      (h = g ↔ ∀ k ∈ g.keys, ∀ s, lastSchema? xs k = some s → g.get? k = some (.ready s)) := by
  intro h
  have hh : h = g.overwrites xs := g.rollback_changes xs
  have hkeys : h.keys = g.keys := hh ▸ g.keys_overwrites xs
  have hget : ∀ k ∈ g.keys, h.get? k = ((lastSchema? xs k).map Entry.ready).or (g.get? k) :=
    fun k hk => hh ▸ get?_overwrites hk xs
  refine ⟨hkeys, hget, ?_, ?_⟩
  · intro heq k hk s hs
    have hentry := hget k hk
    rw [hs, heq] at hentry
    exact hentry
  · intro hlast
    refine ext (Table.eq_of_get?_eq h.nodup hkeys fun k => ?_)
    change h.get? k = g.get? k
    by_cases hk : k ∈ g.keys
    · rw [hget k hk]
      cases hs : lastSchema? xs k with
      | none => rfl
      | some s => exact (hlast k hk s hs).symm
    · rw [not_mem_keys.mp hk, not_mem_keys.mp (hkeys ▸ hk)]

/-- A key that was pending at the checkpoint stays finalized. -/
theorem rollback_of_finalized_pending :
    let g := (empty.reserve "User").2
    let h := (g.changes [.finalize "User" (.ofPrimitive .string)]).rollback g.checkpoint
    g.get? "User" = some .pending ∧ h.get? "User" = some (.ready (.ofPrimitive .string)) ∧
      h ≠ g := by
  intro g h
  have hg : g.get? "User" = some .pending := rfl
  have hh : h.get? "User" = some (.ready (.ofPrimitive .string)) := rfl
  refine ⟨hg, hh, fun heq => ?_⟩
  rw [heq, hg] at hh
  cases hh

end Registry
end SchemaGraph
