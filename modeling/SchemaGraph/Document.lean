import SchemaGraph.Error
import SchemaGraph.Registry
import SchemaGraph.Yaml.Printer

/-! # Documents

An OpenAPI document of the components of a registry and of named nodes. -/

namespace SchemaGraph

/-- The JSON type of components, in ascending order of their keys. A pending one is refused. -/
def Registry.components (g : Registry) : Except Error Json := do
  let schemas ← g.entries.mapM fun (key, e) =>
    match e with
    | .ready s => .ok (key, s.toJson)
    | .pending => .error (.pendingSchema key)
  if schemas.isEmpty then return .obj []
  return .obj [("schemas", .obj (schemas.mergeSort fun a b => a.1 ≤ b.1))]

structure Info where
  title : String
  version : String
deriving Repr, DecidableEq, Inhabited

namespace Document

def referencesField : String := "x-references"

def build (info : Info) (g : Registry) (references : Table Schema) : Except Error Json := do
  let components ← g.components
  return .ofFields [
    ("openapi", some (.str "3.1.0")),
    ("info", some (.obj [("title", .str info.title), ("version", .str info.version)])),
    ("paths", some (.obj [])),
    ("components", some components),
    (referencesField,
      if references.isEmpty then none
      else some (.obj (references.map fun (name, s) => (name, s.toJson))))]

/-- The text of a document. Only one in YAML ends its last line. -/
def text : Format → Json → String
  | .json, d => d.pretty 0
  | .yaml, d => Yaml.documentText d

/-- The text of the document of a registry and of named nodes. -/
def emit (info : Info) (f : Format) (g : Registry) (references : Table Schema) :
    Except Error String := do
  let d ← build info g references
  return text f d

end Document
end SchemaGraph
