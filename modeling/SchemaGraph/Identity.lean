import SchemaGraph.Catalog
import SchemaGraph.Error
import SchemaGraph.Key

/-! # Identities

The identity of a reference is written like the reference itself, with the full name of every
type in it. -/

namespace SchemaGraph
namespace Catalog

def resolveIn (c : Catalog) (reference : Reference) (name : String) : Except Error Descriptor :=
  match c.resolve name with
  | .ok d => .ok d
  | .error cause => .error (.unresolved reference.display cause)

mutual

def identity (c : Catalog) : Reference → Except Error String
  | .array element => do return (← identity c element) ++ "[]"
  | .named name arguments => do
    let d ← c.resolveIn (.named name arguments) name
    return stripArity d.name ++ (← identityArguments c arguments)

/-- The identities of arguments between angle brackets; nothing for none. -/
def identityArguments (c : Catalog) : List Reference → Except Error String
  | [] => .ok ""
  | argument :: more => do
    let first ← identity c argument
    return "<" ++ first ++ (← identityMore c more) ++ ">"

def identityMore (c : Catalog) : List Reference → Except Error String
  | [] => .ok ""
  | argument :: more => do
    let first ← identity c argument
    return "," ++ first ++ (← identityMore c more)

end

/-- The key under which a reference is registered, if it is one to an object type. -/
def registryKey (c : Catalog) (r : Reference) : Except Error String := do
  return Key.encode (← c.identity r)

def identityOf (c : Catalog) (d : Descriptor) (arguments : List Reference) :
    Except Error String := do
  return stripArity d.name ++ (← c.identityArguments arguments)

end Catalog
end SchemaGraph
