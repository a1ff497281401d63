import SchemaGraph.Schema

/-! # Registries

The components of a document under their keys, in the order in which the keys were reserved. A
component is pending while it is compiled. -/

namespace SchemaGraph

inductive Entry where
  /-- The key is reserved, its schema is not finished. -/
  | pending
  | ready (schema : Schema)
deriving Repr, BEq, Inhabited

namespace Entry

def isPending : Entry → Bool
  | .pending => true
  | .ready _ => false

def schema? : Entry → Option Schema
  | .pending => none
  | .ready s => some s

end Entry

structure Registry where
  entries : Table Entry
  nodup : entries.keys.Nodup
deriving Repr

namespace Registry

theorem ext {g h : Registry} (e : g.entries = h.entries) : g = h := by
  cases g; cases h; cases e; rfl

def empty : Registry := ⟨[], List.nodup_nil⟩

instance : Inhabited Registry := ⟨empty⟩

def size (g : Registry) : Nat := g.entries.length

def keys (g : Registry) : List String := g.entries.keys

def get? (g : Registry) (key : String) : Option Entry := g.entries.get? key

def contains (g : Registry) (key : String) : Bool := (g.get? key).isSome

/-- Puts an entry under a key, in the place of an earlier one. -/
def put (g : Registry) (key : String) (e : Entry) : Registry :=
  ⟨g.entries.put key e, Table.nodup_keys_put g.nodup⟩

/-- Takes a key if it is free, and tells whether it was. -/
def reserve (g : Registry) (key : String) : Bool × Registry :=
  if g.contains key then (false, g) else (true, g.put key .pending)

def finalize (g : Registry) (key : String) (s : Schema) : Registry := g.put key (.ready s)

def truncate (g : Registry) (n : Nat) : Registry :=
  ⟨g.entries.take n, by
    have h : ((g.entries.take n).map Prod.fst).Sublist (g.entries.map Prod.fst) :=
      (List.take_sublist n g.entries).map _
    exact h.nodup g.nodup⟩

/-- A size to return to. -/
structure Checkpoint where
  size : Nat
deriving Repr, DecidableEq, Inhabited

def checkpoint (g : Registry) : Checkpoint := ⟨g.size⟩

/-- Drops the entries added since the checkpoint. -/
def rollback (g : Registry) (mark : Checkpoint) : Registry := g.truncate mark.size

def pendingKeys (g : Registry) : List String :=
  (g.entries.filter fun e => e.2.isPending).map Prod.fst

@[simp] theorem get?_put (g : Registry) (key : String) (e : Entry) (k : String) :
    (g.put key e).get? k = if k = key then some e else g.get? k := Table.get?_put ..

end Registry
end SchemaGraph
