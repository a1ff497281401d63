import SchemaGraph.CommandLine.Arguments
import SchemaGraph.Document.References

/-! # Requests

The commands and what their arguments ask for. Defaults of the command `compile` are taken from
the environment. -/

namespace SchemaGraph
namespace CommandLine

abbrev Environment := String → Option String

structure CompileRequest where
  catalogs : List String
  references : String
  /-- The path of the document, if it is not printed. -/
  output : Option String
  format : Format
  info : Info
  strictness : Document.Strictness
  /-- The catalog starts with the types that every catalog may refer to. -/
  hasBuiltins : Bool
deriving Repr, DecidableEq, Inhabited

inductive Request where
  | compile (request : CompileRequest)
  /-- Shows the reference that tokens spell and, given catalogs, its key. -/
  | decode (tokens catalogs : List String)
  /-- Shows the key of an identity. -/
  | encodeKey (identity : String)
  /-- Shows the identity of a key. -/
  | decodeKey (key : String)
deriving Repr, DecidableEq, Inhabited

def isPath (text : String) : Bool := text != ""

def pieces (text : String) : List String := text.splitOn ","

def arePaths (text : String) : Bool := (pieces text).all isPath

def formatNamed? : String → Option Format
  | "json" => some .json
  | "yaml" => some .yaml
  | _ => none

namespace CompileRequest

def catalogVariable : String := "CREFGEN_CATALOG"

def formatVariable : String := "CREFGEN_FORMAT"

def usage : Usage where
  options := [
    ("catalog", .value true arePaths),
    ("references", .value false isPath),
    ("output", .value false isPath),
    ("format", .value false fun text => (formatNamed? text).isSome),
    ("title", .value false fun _ => true),
    ("api-version", .value false fun _ => true),
    ("lenient", .flag),
    ("no-builtins", .flag)]
  operandLimit := some 0

/-- The catalogs that are given, or else those of the environment. -/
def catalogPaths (env : Environment) (given : List String) : Except Stop (List String) :=
  match given with
  | _ :: _ => .ok (given.flatMap pieces)
  | [] =>
    match env catalogVariable with
    | some text => if arePaths text then .ok (pieces text) else .error .misuse
    | none => .error .misuse

/-- The notation that is given, or else that of the environment, or else YAML. -/
def formatOf (env : Environment) (given : Option String) : Except Stop Format :=
  match given <|> env formatVariable with
  | none => .ok .yaml
  | some text =>
    match formatNamed? text with
    | some f => .ok f
    | none => .error .misuse

def ofSorted (env : Environment) (s : Sorted) : Except Stop CompileRequest := do
  let some references := s.valueOf? "references" | .error .misuse
  return {
    catalogs := ← catalogPaths env (s.valuesOf "catalog")
    references
    output := s.valueOf? "output"
    format := ← formatOf env (s.valueOf? "format")
    info := ⟨(s.valueOf? "title").getD "API", (s.valueOf? "api-version").getD "1.0.0"⟩
    strictness := if s.hasFlag "lenient" then .lenient else .strict
    hasBuiltins := !s.hasFlag "no-builtins" }

end CompileRequest

namespace Request

def decodeOf (arguments : List String) : Except Stop Request := do
  let s ← Usage.sort ⟨[("catalog", .value true isPath)], none⟩ arguments
  if s.operands.isEmpty then .error .misuse
  else return .decode s.operands (s.valuesOf "catalog")

def keyOf (arguments : List String) : Except Stop Request := do
  let s ← Usage.sort ⟨[("restore", .flag)], some 1⟩ arguments
  match s.operands with
  | [text] => return if s.hasFlag "restore" then .decodeKey text else .encodeKey text
  | _ => .error .misuse

def ofCommand (env : Environment) : String → List String → Except Stop Request
  | "compile", arguments => do
    .compile <$> CompileRequest.ofSorted env (← CompileRequest.usage.sort arguments)
  | "decode", arguments => decodeOf arguments
  | "sanitize", arguments => keyOf arguments
  | _, _ => .error .misuse

/-- The answer to the command `help`: it stands alone or in front of the name of one command. -/
def helpOf : List String → Stop
  | [] => .help
  | [name] => if ["compile", "decode", "sanitize", "help"].contains name then .help else .misuse
  | _ => .misuse

/-- The letters behind one dash in front of the command, after `verbose` or not. -/
def generalLetters : Bool → List Char → Except Stop Bool
  | verbose, [] => .ok verbose
  | verbose, 'v' :: more => if verbose then .error .misuse else generalLetters true more
  | _, 'h' :: _ => .error .help
  | _, 'V' :: _ => .error .version
  | _, _ :: _ => .error .misuse

/-- What the arguments of the program ask for, after `--verbose` or not. -/
def ofArguments (env : Environment) : Bool → List String → Except Stop Request
  | _, [] => .error .misuse
  | verbose, text :: more =>
    match Argument.ofText text with
    | .option "help" none => .error .help
    | .option "version" none => .error .version
    | .option "verbose" none =>
      if verbose then .error .misuse else ofArguments env true more
    | .letters letters => do ofArguments env (← generalLetters verbose letters) more
    | .operand "help" => .error (helpOf more)
    | .operand name => ofCommand env name more
    | _ => .error .misuse

def parse (env : Environment) (arguments : List String) : Except Stop Request :=
  ofArguments env false arguments

end Request
end CommandLine
end SchemaGraph
