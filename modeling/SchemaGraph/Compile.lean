import SchemaGraph.Identity
import SchemaGraph.Reference.Decode
import SchemaGraph.Registry

/-! # Compilation

A reference becomes a schema node. Primitives, enumerations, maps and sequences are written in
place; an object type is registered once under its key and referred to. A key that is pending
belongs to a type whose properties are being compiled, so a cycle ends there. -/

namespace SchemaGraph

/-- The deepest nesting of types that is followed. A type that contains itself with ever larger
arguments has a new key at every level, so the registry alone does not end it. -/
def maxNestingDepth : Nat := 64

/-- What the parameters of a type are bound to, given as many arguments. -/
def Descriptor.bind (d : Descriptor) (arguments : List Reference) :
    Except Error Reference.Bindings :=
  if d.parameters.length = arguments.length then .ok (.ofLists d.parameters arguments)
  else .error (.arityMismatch d.name d.parameters.length arguments.length)

namespace Compile

/-- The outcome of a compilation and the registry it leaves, also when it fails. -/
abbrev Outcome (α : Type) := Except Error α × Registry

/-- Goes on with what was compiled; a failure stays as it is. -/
def andThen {α β : Type} (o : Outcome α) (f : α → Registry → Outcome β) : Outcome β :=
  match o with
  | (.ok a, g) => f a g
  | (.error e, g) => (.error e, g)

/-- The schema of a property: marked read-only unless the property is writable. -/
def propertySchema (p : Property) (s : Schema) : Schema := if p.writable then s else s.markReadOnly

/-- The properties of an object type in turn, under their wire names. A wire name that comes
again keeps its place and takes the later schema. -/
def properties (node : Reference → Registry → Outcome Schema) (b : Reference.Bindings) :
    List Property → Table Schema → Registry → Outcome (Table Schema)
  | [], done, g => (.ok done, g)
  | p :: ps, done, g =>
    andThen (node (p.type.substitute b) g) fun s g =>
      properties node b ps (done.put p.wireName (propertySchema p s)) g

def requiredNames (ps : List Property) : List String :=
  (ps.filter (·.required)).map (·.wireName)

/-- The node of an object type under a key: the type is compiled when the key is new. -/
def object (node : Reference → Registry → Outcome Schema) (b : Reference.Bindings)
    (ps : List Property) (key : String) (g : Registry) : Outcome Schema :=
  match g.reserve key with
  | (false, g) => (.ok (.ref key), g)
  | (true, g) =>
    andThen (properties node b ps [] g) fun done g =>
      (.ok (.ref key), g.finalize key (.object done (requiredNames ps) false))

def ofDescriptor (c : Catalog) (node : Reference → Registry → Outcome Schema) (d : Descriptor)
    (arguments : List Reference) (g : Registry) : Outcome Schema :=
  match d.bind arguments with
  | .error e => (.error e, g)
  | .ok b =>
    match d.kind with
    | .primitive p => (.ok (.ofPrimitive p), g)
    | .enumeration members => (.ok (.enumeration members false), g)
    | .dictionary value =>
      andThen (node (value.substitute b) g) fun s g => (.ok (.dictionary s false), g)
    | .enumerable item =>
      andThen (node (item.substitute b) g) fun s g => (.ok (.array s false), g)
    | .object ps =>
      match c.identityOf d arguments with
      | .error e => (.error e, g)
      | .ok identity => object node b ps (Key.encode identity) g

/-- The node of a reference, at most `depth` levels deep. `limit` is the depth that a report of
too deep a nesting names. -/
def node (c : Catalog) (limit : Nat) : Nat → Reference → Registry → Outcome Schema
  | 0, r, g => (.error (.recursionLimit r.display limit), g)
  | depth + 1, .array element, g =>
    andThen (node c limit depth element g) fun s g => (.ok (.array s false), g)
  | depth + 1, .named name arguments, g =>
    match c.resolveIn (.named name arguments) name with
    | .error e => (.error e, g)
    | .ok d => ofDescriptor c (node c limit depth) d arguments g

end Compile

namespace Catalog

/-- Compiles a reference, nested at most `limit` levels deep, into a registry. A failure takes
back every entry it added. -/
def compileWithin (c : Catalog) (limit : Nat) (r : Reference) (g : Registry) :
    Except Error Schema × Registry :=
  match Compile.node c limit limit r g with
  | (.ok s, g') => (.ok s, g')
  | (.error e, g') => (.error e, g'.rollback g.checkpoint)

def compile (c : Catalog) (r : Reference) (g : Registry) : Except Error Schema × Registry :=
  c.compileWithin maxNestingDepth r g

/-- Compiles the reference that a token list spells. No tokens mean no node. -/
def compileTokens (c : Catalog) (tokens : List String) (g : Registry) :
    Except Error (Option Schema) × Registry :=
  match Reference.decode tokens with
  | .error e => (.error (.decode e), g)
  | .ok none => (.ok none, g)
  | .ok (some r) =>
    match c.compile r g with
    | (.ok s, g) => (.ok (some s), g)
    | (.error e, g) => (.error e, g)

end Catalog
end SchemaGraph
