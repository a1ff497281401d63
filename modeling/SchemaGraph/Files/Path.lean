import SchemaGraph.Data.Value

/-! # Paths

A path is a text of steps between slashes. -/

namespace SchemaGraph
namespace Path

/-- The parts between the slashes. The first part of an absolute path is empty. -/
def parts (path : String) : List String := path.splitOn "/"

/-- A part that leads nowhere. -/
def isIdle (part : String) : Bool := part == "" || part == "."

/-- The parts that lead somewhere; an absolute path keeps its empty first part. -/
def steps (path : String) : List String :=
  match parts path with
  | "" :: more => "" :: more.filter (!isIdle ·)
  | all => all.filter (!isIdle ·)

def outer (path : String) : List String := (steps path).dropLast

def ofSteps : List String → String
  | [""] => "/"
  | steps => "/".intercalate steps

def name? (path : String) : Option String :=
  match (steps path).getLast? with
  | none | some "" | some ".." => none
  | some name => some name

/-- The name is a stem and the extension `json`. -/
def isJson (path : String) : Bool :=
  match name? path with
  | some name => name.endsWith ".json" && name != ".json"
  | none => false

def format (path : String) : Format := if isJson path then .json else .yaml

end Path
end SchemaGraph
