import SchemaGraph.CatalogError
import SchemaGraph.Descriptor
import SchemaGraph.ResolveError

/-! # Catalogs

The known host types. A type is found by its full name, by a keyword, or by the part of its
name behind a `.` or a `+`, if no other type ends in the same. -/

namespace SchemaGraph

structure Catalog where
  /-- The descriptors in order of insertion. -/
  types : List Descriptor
  /-- What keywords stand for. -/
  aliases : Table String
  sources : List String
deriving Repr, Inhabited

namespace Catalog

def empty : Catalog := ⟨[], [], []⟩

/-! ## Built-in types -/

def builtinSource : String := "builtin"

def fullName (p : Primitive) : String := "System." ++ p.hostName

/-- The names of generic collections, without namespace and arity. -/
def enumerableNames : List String :=
  ["List", "IList", "ICollection", "IEnumerable", "IReadOnlyList", "IReadOnlyCollection", "HashSet"]

def dictionaryNames : List String := ["Dictionary", "IDictionary", "IReadOnlyDictionary"]

def collectionName (name : String) (arity : Nat) : String :=
  "System.Collections.Generic." ++ name ++ "\x60" ++ toString arity

def builtinTypes : List Descriptor :=
  (Primitive.all.map fun p => ⟨fullName p, [], .primitive p⟩) ++
  (enumerableNames.map fun n => ⟨collectionName n 1, ["T"], .enumerable (.leaf "T")⟩) ++
  (dictionaryNames.map fun n =>
    ⟨collectionName n 2, ["TKey", "TValue"], .dictionary (.leaf "TValue")⟩)

def builtin : Catalog where
  types := builtinTypes
  aliases := Primitive.all.filterMap fun p => p.keyword?.map fun word => (word, fullName p)
  sources := [builtinSource]

/-! ## Insertion -/

def find? (c : Catalog) (name : String) : Option Descriptor := c.types.find? (·.name == name)

def size (c : Catalog) : Nat := c.types.length

/-- Adds a descriptor under a name that is neither blank nor taken. -/
def insert (c : Catalog) (d : Descriptor) : Except CatalogError Catalog :=
  if (Text.trim d.name.toList).isEmpty then .error .unnamed
  else if (c.find? d.name).isSome then .error (.duplicate d.name)
  else .ok { c with types := c.types ++ [d] }

/-- Adds descriptors up to the first that is not taken in. -/
def insertAll (c : Catalog) : List Descriptor → Except CatalogError Unit × Catalog
  | [] => (.ok (), c)
  | d :: ds =>
    match c.insert d with
    | .ok c => c.insertAll ds
    | .error e => (.error e, c)

/-- Adds the descriptors of a source. The source counts as loaded only if all are taken in. -/
def absorb (c : Catalog) (source : String) (ds : List Descriptor) :
    Except CatalogError Nat × Catalog :=
  match c.insertAll ds with
  | (.ok (), c) => (.ok ds.length, { c with sources := c.sources ++ [source] })
  | (.error e, c) => (.error e, c)

/-! ## Resolution -/

/-- The text ends in the name, behind a `.` or a `+`. -/
def endsIn (full name : String) : Bool :=
  ('.' :: name.toList).isSuffixOf full.toList || ('+' :: name.toList).isSuffixOf full.toList

/-- The types whose full names end in a name, in ascending order of their full names. -/
def candidates (c : Catalog) (name : String) : List Descriptor :=
  (c.types.filter fun d => endsIn d.name name).mergeSort fun d e => d.name ≤ e.name

/-- The name that is looked up: blank ends are cut, and a keyword is replaced. -/
def lookupName (c : Catalog) (name : String) : String :=
  let name := Text.trimmed name
  (c.aliases.get? name).getD name

/-- The one type that a name stands for. A full name wins over the ends of others. -/
def resolve (c : Catalog) (name : String) : Except ResolveError Descriptor :=
  let name := c.lookupName name
  match c.find? name with
  | some d => .ok d
  | none =>
    match c.candidates name with
    | [] => .error (.notFound name c.sources)
    | [d] => .ok d
    | ds => .error (.ambiguous name (ds.map (·.name)))

end Catalog
end SchemaGraph
