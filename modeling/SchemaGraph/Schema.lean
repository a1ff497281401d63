import SchemaGraph.Primitive

/-! # Schemas

Schema nodes of a document: inline schemas and references to components. -/

namespace SchemaGraph

/-- A schema node. The flag of an inline schema says that it is read-only. -/
inductive Schema where
  | ref (key : String)
  /-- A read-only `allOf` of one node. -/
  | wrapped (item : Schema)
  | primitive (shape : Primitive.Shape) (readOnly : Bool)
  | enumeration (members : List String) (readOnly : Bool)
  | dictionary (values : Schema) (readOnly : Bool)
  | array (items : Schema) (readOnly : Bool)
  /-- The properties under their wire names, and the wire names that are required. -/
  | object (properties : List (String × Schema)) (required : List String) (readOnly : Bool)
deriving Repr, BEq, Inhabited

namespace Schema

def ofPrimitive (p : Primitive) : Schema := .primitive p.shape false

/-- Any string: what stands for a type that is not known. -/
def opaqueString : Schema := ofPrimitive .string

/-- Marks a node read-only. A node that is not an inline schema cannot carry the mark itself and is
wrapped. -/
def markReadOnly : Schema → Schema
  | .ref key => .wrapped (.ref key)
  | .wrapped item => .wrapped (.wrapped item)
  | .primitive shape _ => .primitive shape true
  | .enumeration members _ => .enumeration members true
  | .dictionary values _ => .dictionary values true
  | .array items _ => .array items true
  | .object properties required _ => .object properties required true

def unmark : Schema → Schema
  | .ref key => .ref key
  | .wrapped item => item
  | .primitive shape _ => .primitive shape false
  | .enumeration members _ => .enumeration members false
  | .dictionary values _ => .dictionary values false
  | .array items _ => .array items false
  | .object properties required _ => .object properties required false

/-- The node itself does not carry the mark. -/
def IsUnmarked (s : Schema) : Prop := s.unmark = s

/-- Removing the mark gives back what was marked. -/
theorem IsUnmarked.unmark_markReadOnly {s : Schema} (h : s.IsUnmarked) :
    s.markReadOnly.unmark = s := by
  cases s with
  | ref | wrapped => rfl
  | primitive | enumeration | dictionary | array | object => exact h

/-! ## References -/

mutual

/-- The component keys that a schema refers to, at any depth. -/
def refs : Schema → List String
  | .ref key => [key]
  | .wrapped item => refs item
  | .primitive .. | .enumeration .. => []
  | .dictionary values _ => refs values
  | .array items _ => refs items
  | .object properties _ _ => refsAll properties

def refsAll : List (String × Schema) → List String
  | [] => []
  | (_, s) :: ps => refs s ++ refsAll ps

end

@[simp] theorem refs_markReadOnly (s : Schema) : s.markReadOnly.refs = s.refs := by
  cases s <;> simp [markReadOnly, refs]

theorem refsAll_eq_flatMap (ps : List (String × Schema)) :
    refsAll ps = ps.flatMap fun p => p.2.refs := by
  induction ps with
  | nil => simp [refsAll]
  | cons p ps ih => obtain ⟨_, s⟩ := p; simp [refsAll, ih]

/-! ## JSON form -/

/-- Where the component under a key is found in a document. -/
def pointer (key : String) : String := "#/components/schemas/" ++ key

def readOnlyField (readOnly : Bool) : String × Option Json :=
  ("readOnly", if readOnly then some (.bool true) else none)

mutual

def toJson : Schema → Json
  | .ref key => .obj [("$ref", .str (pointer key))]
  | .wrapped item => .obj [("allOf", .arr [toJson item]), ("readOnly", .bool true)]
  | .primitive shape readOnly => .ofFields [
      ("type", some (.str shape.type)),
      ("format", shape.format.map .str),
      ("examples", shape.sample.map fun s => .arr [.str s]),
      readOnlyField readOnly,
      ("maxLength", shape.length.map .nat),
      ("minLength", shape.length.map .nat)]
  | .enumeration members readOnly => .ofFields [
      ("type", some (.str "string")),
      ("enum", some (.arr (members.map .str))),
      readOnlyField readOnly]
  | .dictionary values readOnly => .ofFields [
      ("type", some (.str "object")),
      ("additionalProperties", some (toJson values)),
      readOnlyField readOnly]
  | .array items readOnly => .ofFields [
      ("type", some (.str "array")),
      ("items", some (toJson items)),
      readOnlyField readOnly]
  | .object properties required readOnly => .ofFields [
      ("type", some (.str "object")),
      ("required", if required.isEmpty then none else some (.arr (required.map .str))),
      ("properties", if properties.isEmpty then none else some (.obj (fieldsOf properties))),
      readOnlyField readOnly]

def fieldsOf : List (String × Schema) → List (String × Json)
  | [] => []
  | (name, s) :: ps => (name, toJson s) :: fieldsOf ps

end

end Schema
end SchemaGraph
