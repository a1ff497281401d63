import SchemaGraph.Reference
import SchemaGraph.Primitive

/-! # Type descriptors

What is known of a host type: its full name, its generic parameters and its kind. References in
a descriptor may name the generic parameters. -/

namespace SchemaGraph

structure Property where
  name : String
  type : Reference
  writable : Bool := true
  /-- It is always present on the wire. -/
  required : Bool := false
  /-- The name on the wire, where it differs. -/
  serializedName : Option String := none
deriving Repr, BEq, Inhabited

namespace Property

def wireName (p : Property) : String := p.serializedName.getD p.name

end Property

inductive Kind where
  | primitive (primitive : Primitive)
  | enumeration (members : List String)
  /-- A map from strings to values of a type. -/
  | dictionary (value : Reference)
  /-- A sequence of items of a type. -/
  | enumerable (item : Reference)
  | object (properties : List Property)
deriving Repr, BEq, Inhabited

structure Descriptor where
  /-- The full name, arity suffix included. -/
  name : String
  parameters : List String := []
  kind : Kind
deriving Repr, BEq, Inhabited

end SchemaGraph
