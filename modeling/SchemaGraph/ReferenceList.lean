import SchemaGraph.Data.Reader

/-! # Reference lists

The references that a document is made for: a list of names, each with the tokens that spell its
reference. -/

namespace SchemaGraph

structure NamedReference where
  name : String
  tokens : List String
deriving Repr, DecidableEq, Inhabited

namespace NamedReference

/-- The fields as far as they are read. -/
structure Draft where
  name : Option String := none
  tokens : Option (List String) := none

namespace Draft

def setAll (d : Draft) : List (Node × Node) → Except ReadError Draft
  | [] => .ok d
  | (k, v) :: es => do
    let key ← k.text "field identifier"
    if key = "name" then
      if d.name.isSome then .error (.duplicateField key)
      else setAll { d with name := some (← v.text "a string") } es
    else if key = "tokens" then
      if d.tokens.isSome then .error (.duplicateField key)
      else setAll { d with tokens := some (← v.texts) } es
    else
      v.skip
      setAll d es

def finish (d : Draft) : Except ReadError NamedReference := do
  let some name := d.name | .error (.missingField "name")
  let some tokens := d.tokens | .error (.missingField "tokens")
  return ⟨name, tokens⟩

end Draft

/-- An entry written as the sequence of its fields. -/
def ofItems (items : List Node) (closed : Bool) : Except ReadError NamedReference := do
  let short (n : Nat) : Except ReadError NamedReference := do
    Node.finish closed ()
    .error (.invalidLength n "struct NamedReference with 2 elements")
  match items with
  | [] => short 0
  | [name] => do
    let _ ← name.text "a string"
    short 1
  | name :: tokens :: more => do
    let r : NamedReference := ⟨← name.text "a string", ← tokens.texts⟩
    if more.isEmpty then Node.finish closed r else .error .broken

def ofNode (f : Format) (n : Node) : Except ReadError NamedReference := do
  match n with
  | .seq items closed _ =>
    if f.hasSequenceRecords then ofItems items closed
    else .error (n.mismatch "struct NamedReference")
  | _ =>
    let (entries, closed) ← n.entries "struct NamedReference"
    (← Node.finish closed (← Draft.setAll {} entries)).finish

def readList (f : Format) (text : String) : Except ReadError (List NamedReference) :=
  f.read (Node.each (ofNode f)) text

end NamedReference
end SchemaGraph
