import SchemaGraph.Catalog
import SchemaGraph.Catalog.Source
import SchemaGraph.Data.Reader

/-! # Loading catalogs

A catalog text is a mapping with a list of `types`. -/

namespace SchemaGraph
namespace Catalog

/-- The types of the text in a notation. Three collections stand around the value of a type's
field: the root, the list and the type. -/
def typeList (f : Format) (n : Node) : Except ReadError (List Descriptor) :=
  n.each (Descriptor.ofNode (f.maxDepth - 3))

def typesField (f : Format) :
    Option (List Descriptor) → List (Node × Node) → Except ReadError (Option (List Descriptor))
  | ds, [] => .ok ds
  | ds, (k, v) :: es => do
    let key ← k.text "field identifier"
    if key = "types" then
      if ds.isSome then .error (.duplicateField key)
      else typesField f (some (← typeList f v)) es
    else
      v.skip
      typesField f ds es

/-- The types of a root. Without any `types` there are none. -/
def rootTypes (f : Format) (n : Node) : Except ReadError (List Descriptor) := do
  match n with
  | .seq items closed _ =>
    if !f.hasSequenceRecords then .error (n.mismatch "struct CatalogFile")
    match items with
    | [] => Node.finish closed []
    | [types] => Node.finish closed (← typeList f types)
    | types :: _ => do
      let _ ← typeList f types
      .error .broken
  | _ =>
    let (entries, closed) ← n.entries "struct CatalogFile"
    Node.finish closed ((← typesField f none entries).getD [])

def readTypes (f : Format) (text : String) : Except ReadError (List Descriptor) :=
  f.read (rootTypes f) text

/-- Loads the types of a text under the label of its source. A text that cannot be read changes
nothing. -/
def load (c : Catalog) (f : Format) (source text : String) : Except CatalogError Nat × Catalog :=
  match readTypes f text with
  | .ok ds => c.absorb source ds
  | .error e => (.error (.unreadable source f e), c)

end Catalog
end SchemaGraph
