import SchemaGraph.Compile
import SchemaGraph.Document
import SchemaGraph.ReferenceList

/-! # Documents of reference lists

The references of a list are compiled one after another into one registry, so that they share
their components. -/

namespace SchemaGraph
namespace Document

/-- What becomes of a reference to a type that does not resolve. -/
inductive Strictness where
  /-- It ends the compilation. -/
  | strict
  /-- It is documented as any string. -/
  | lenient
deriving Repr, DecidableEq, Inhabited

inductive Failure where
  | reference (name : String) (cause : Error)
  | document (cause : Error)
deriving Repr, DecidableEq, Inhabited

/-- The node that stands in for a reference that failed, if one may. -/
def Strictness.substitute? : Strictness → Error → Option Schema
  | .lenient, .unresolved .. => some .opaqueString
  | _, _ => none

/-- Compiles references into a registry and adds their nodes under their names. A reference
without tokens is left out; of two with one name the later counts. -/
def compileAll (c : Catalog) (mode : Strictness) :
    List NamedReference → Registry → Table Schema → Except Failure (Registry × Table Schema)
  | [], g, nodes => .ok (g, nodes)
  | r :: more, g, nodes =>
    match c.compileTokens r.tokens g with
    | (.ok (some s), g) => compileAll c mode more g (nodes.put r.name s)
    | (.ok none, g) => compileAll c mode more g nodes
    | (.error e, g) =>
      match mode.substitute? e with
      | some s => compileAll c mode more g (nodes.put r.name s)
      | none => .error (.reference r.name e)

def ofReferences (c : Catalog) (mode : Strictness) (info : Info)
    (references : List NamedReference) : Except Failure Json := do
  let (g, nodes) ← compileAll c mode references .empty []
  match build info g nodes with
  | .ok d => .ok d
  | .error e => .error (.document e)

end Document
end SchemaGraph
