import SchemaGraph.Descriptor
import SchemaGraph.Data.Node
import SchemaGraph.Reference.Decode

/-! # Descriptors in texts

How a catalog text describes types. A type is a mapping with a `name`, perhaps
`generic_parameters`, and the fields of its kind, of which `kind` is one. The first fault in
reading order is reported. -/

namespace SchemaGraph

namespace Value

def string : Value → Except ReadError String
  | .atom (.str s) => .ok s
  | v => .error (.invalidType v.look "a string")

def boolean : Value → Except ReadError Bool
  | .atom (.bool b) => .ok b
  | v => .error (.invalidType v.look "a boolean")

def each {α : Type} (read : Value → Except ReadError α) : Value → Except ReadError (List α)
  | .seq items => items.mapM read
  | v => .error (.invalidType v.look "a sequence")

/-- The place of a name among others, written as the name or as its index. -/
def variant (names : List String) : Value → Except ReadError Nat
  | .atom (.str s) =>
    match names.findIdx? (· == s) with
    | some i => .ok i
    | none => .error (.unknownVariant s names)
  | v@(.atom (.int n)) =>
    if n < 0 then .error (.invalidType v.look "variant identifier")
    else if n < names.length then .ok n.toNat
    else .error (.invalidValue v.look ("variant index 0 <= i < " ++ toString names.length))
  | v => .error (.invalidType v.look "variant identifier")

/-- A type reference: one token, or a list of tokens. -/
def reference (v : Value) : Except ReadError Reference := do
  let tokens ← match v with
    | .atom (.str s) => .ok [s]
    | .seq items =>
      match items.mapM string with
      | .ok tokens => .ok tokens
      | .error _ => .error .noReference
    | _ => .error ReadError.noReference
  match Reference.decode tokens with
  | .ok (some r) => .ok r
  | .ok none => .error .emptyReference
  | .error e => .error (.decode e)

end Value

namespace Primitive

/-- A primitive by its label: the label, or a mapping of the label alone to nothing. Where
`emptyIsNothing` holds, an empty mapping counts as nothing. -/
def ofValue (emptyIsNothing : Bool) (v : Value) : Except ReadError Primitive := do
  let label ← match v with
    | .atom (.str _) => .ok v
    | .map [(k, _)] => .ok k
    | .map _ => .error (.invalidValue v.look "map with a single key")
    | _ => .error (ReadError.invalidType v.look "string or map")
  let i ← label.variant (all.map Primitive.label)
  match v with
  | .map [(_, content)] =>
    match content with
    | .atom .null => .ok ()
    | .map [] => if emptyIsNothing then .ok () else .error (.invalidType .map "unit")
    | _ => .error (.invalidType content.look "unit")
  | _ => .ok ()
  return all.getD i default

end Primitive

/-- The first value of a field that may stand only once. -/
def uniqueField {α : Type} (name : String) (read : Value → Except ReadError α) :
    List (String × Value) → Option α → Except ReadError (Option α)
  | [], done => .ok done
  | (k, v) :: fs, done =>
    if k = name then
      if done.isSome then .error (.duplicateField name)
      else do uniqueField name read fs (some (← read v))
    else uniqueField name read fs done

def requiredField {α : Type} (name : String) (read : Value → Except ReadError α)
    (fs : List (String × Value)) : Except ReadError α := do
  match ← uniqueField name read fs none with
  | some a => .ok a
  | none => .error (.missingField name)

namespace Property

/-- The fields of a property as far as they are read. -/
structure Draft where
  name : Option String := none
  type : Option Reference := none
  writable : Option Bool := none
  required : Option Bool := none
  serializedName : Option (Option String) := none

def fieldNames : List String := ["name", "type", "writable", "required", "serialized_name"]

/-- The name of a field, written as the name or as its index; none for any other name. -/
def fieldName : Value → Except ReadError (Option String)
  | .atom (.str s) => .ok (if fieldNames.contains s then some s else none)
  | v@(.atom (.int n)) =>
    if n < 0 then .error (.invalidType v.look "field identifier") else .ok fieldNames[n.toNat]?
  | v => .error (.invalidType v.look "field identifier")

/-- The name on the wire; nothing is no name. -/
def serializedNameOf : Value → Except ReadError (Option String)
  | .atom .null => .ok none
  | v => do return some (← v.string)

namespace Draft

def set (d : Draft) (name : String) (v : Value) : Except ReadError Draft :=
  let once {α : Type} (old : Option α) (read : Value → Except ReadError α) :
      Except ReadError α :=
    if old.isSome then .error (.duplicateField name) else read v
  if name = "name" then do return { d with name := some (← once d.name Value.string) }
  else if name = "type" then do return { d with type := some (← once d.type Value.reference) }
  else if name = "writable" then do
    return { d with writable := some (← once d.writable Value.boolean) }
  else if name = "required" then do
    return { d with required := some (← once d.required Value.boolean) }
  else do
    return { d with serializedName := some (← once d.serializedName serializedNameOf) }

def setAll (d : Draft) : List (Value × Value) → Except ReadError Draft
  | [] => .ok d
  | (k, v) :: es => do
    match ← fieldName k with
    | some name => (← d.set name v).setAll es
    | none => d.setAll es

/-- Takes in the items of a sequence, one for each field. -/
def setItems (d : Draft) : List String → List Value → Except ReadError Draft
  | name :: names, v :: vs => do (← d.set name v).setItems names vs
  | _, _ => .ok d

def finish (d : Draft) : Except ReadError Property := do
  let some name := d.name | .error (.missingField "name")
  let some type := d.type | .error (.missingField "type")
  return {
    name, type
    writable := d.writable.getD true
    required := d.required.getD false
    serializedName := d.serializedName.getD none }

end Draft

/-- A property: a mapping of its fields, or a sequence of them, of which the last three may be
left out. -/
def ofValue : Value → Except ReadError Property
  | .map es => do (← Draft.setAll {} es).finish
  | .seq vs => do
    let d ← Draft.setItems {} fieldNames vs
    if vs.length < 2 then
      .error (.invalidLength vs.length "struct PropertyDescriptor with 5 elements")
    else if vs.length > 5 then .error (.invalidLength vs.length "5 elements in sequence")
    else d.finish
  | v => .error (.invalidType v.look "struct PropertyDescriptor")

end Property

namespace Kind

/-- The names of the kinds, in the order of their indices. -/
def names : List String := ["primitive", "enum", "dictionary", "enumerable", "object"]

def ofFields (fs : List (String × Value)) : Except ReadError Kind := do
  match ← requiredField "kind" (Value.variant names) fs with
  | 0 => return .primitive (← requiredField "primitive" (Primitive.ofValue true) fs)
  | 1 => return .enumeration (← requiredField "members" (Value.each Value.string) fs)
  | 2 => return .dictionary (← requiredField "value_type" Value.reference fs)
  | 3 => return .enumerable (← requiredField "item_type" Value.reference fs)
  | _ =>
    return .object ((← uniqueField "properties" (Value.each Property.ofValue) fs none).getD [])

end Kind

namespace Descriptor

/-- The fields of a type as far as they are read. Those of the kind are kept in order. -/
structure Draft where
  name : Option String := none
  parameters : Option (List String) := none
  others : List (String × Value) := []

namespace Draft

/-- Takes in the entries of a mapping; in their values collections nest at most `depth` deep. -/
def setAll (depth : Nat) (d : Draft) : List (Node × Node) → Except ReadError Draft
  | [] => .ok d
  | (k, v) :: es => do
    let key ← k.text "field identifier"
    if key = "name" then
      if d.name.isSome then .error (.duplicateField key)
      else setAll depth { d with name := some (← v.text "a string") } es
    else if key = "generic_parameters" then
      if d.parameters.isSome then .error (.duplicateField key)
      else setAll depth { d with parameters := some (← v.texts) } es
    else setAll depth { d with others := d.others ++ [(key, ← v.toValue depth)] } es

def finish (d : Draft) : Except ReadError Descriptor := do
  let some name := d.name | .error (.missingField "name")
  return ⟨name, d.parameters.getD [], ← Kind.ofFields d.others⟩

end Draft

def ofNode (depth : Nat) (n : Node) : Except ReadError Descriptor := do
  let (entries, closed) ← n.entries "struct TypeDescriptor"
  let d ← Draft.setAll depth {} entries
  (← Node.finish closed d).finish

def ofJson (v : Json) : Except ReadError Descriptor := ofNode v.depth (.ofJson v)

end Descriptor
end SchemaGraph
