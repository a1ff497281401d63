import SchemaGraph.Catalog.Load
import SchemaGraph.CommandLine.Outcome
import SchemaGraph.CommandLine.Request
import SchemaGraph.Files.FileSystem

/-! # Running commands

A request is run in any monad with access to files. -/

namespace SchemaGraph
namespace CommandLine

/-- The name and number that `--version` prints. -/
def versionLine : String := "crefgen-cli 0.1.0\n"

def advice : String := "\n".intercalate [
  "usage: crefgen [-v] compile --catalog PATH,.. --references PATH [--output PATH]",
  "         [--format json|yaml] [--title TEXT] [--api-version TEXT] [--lenient] [--no-builtins]",
  "       crefgen [-v] decode [--catalog PATH].. TOKEN..",
  "       crefgen [-v] sanitize [--restore] TEXT"]

/-! ## Pure parts -/

def loadText (c : Catalog) (path text : String) : Except Failure Catalog :=
  match c.load (Path.format path) path text with
  | (.ok _, c) => .ok c
  | (.error e, _) => .error (.schema (.catalog e))

def readReferences (path text : String) : Except Failure (List NamedReference) :=
  let f := Path.format path
  match NamedReference.readList f text with
  | .ok references => .ok references
  | .error e => .error (.referenceList f e)

def documentText (r : CompileRequest) (c : Catalog) (references : List NamedReference) :
    Except Failure String :=
  match Document.ofReferences c r.strictness r.info references with
  | .ok d => .ok (Document.text r.format d)
  | .error e => .error (.ofDocument e)

def decodeTokens (tokens : List String) : Except Failure Reference :=
  match Reference.decode tokens with
  | .ok (some r) => .ok r
  | .ok none => .error .noTokens
  | .error e => .error (.schema (.decode e))

def keyText (c : Catalog) (r : Reference) : Except Failure String :=
  match c.registryKey r with
  | .ok key => .ok key
  | .error e => .error (.schema e)

def identityText (key : String) : Except Failure String :=
  match Key.decode key with
  | some identity => .ok identity
  | none => .error (.noKey key)

/-! ## Access to files -/

section

variable {m : Type → Type} [Monad m] [FileAccess m]

/-- Does a file operation; `fail` says what its error means. -/
def attempt {α : Type} (operation : m (Except FileError α)) (fail : FileError → Failure) :
    ExceptT Failure m α := do
  match ← operation with
  | .ok a => return a
  | .error e => throw (fail e)

def readFile (path : String) : ExceptT Failure m String :=
  attempt (FileAccess.read path) .file

def loadFiles (c : Catalog) : List String → ExceptT Failure m Catalog
  | [] => return c
  | path :: more => do
    let text ← readFile path
    loadFiles (← loadText c path text) more

/-- Writes a text to a file, in directories that are made where they are missing. -/
def writeFile (path text : String) : ExceptT Failure m Unit := do
  attempt (FileAccess.ensureSteps (Path.outer path)) .outputDirectory
  attempt (FileAccess.write path text) .output

def runCompile (r : CompileRequest) : ExceptT Failure m String := do
  let c ← loadFiles (if r.hasBuiltins then .builtin else .empty) r.catalogs
  let text ← readFile r.references
  let references ← readReferences r.references text
  let document ← documentText r c references
  match r.output with
  | some path => do
    writeFile path document
    return ""
  | none => return document

def runDecode (tokens catalogs : List String) : ExceptT Failure m String := do
  let r ← decodeTokens tokens
  if catalogs.isEmpty then return r.display ++ "\n"
  let c ← loadFiles .builtin catalogs
  return r.display ++ "\n" ++ (← keyText c r) ++ "\n"

def Request.run : Request → ExceptT Failure m String
  | .compile r => runCompile r
  | .decode tokens catalogs => runDecode tokens catalogs
  | .encodeKey identity => return Key.encode identity ++ "\n"
  | .decodeKey key => do return (← identityText key) ++ "\n"

def run (env : Environment) (arguments : List String) : m Outcome := do
  match Request.parse env arguments with
  | .error .help => return .help advice
  | .error .version => return .done versionLine
  | .error .misuse => return .misuse advice
  | .ok request =>
    match ← request.run.run with
    | .ok text => return .done text
    | .error e => return .failed e

end

end CommandLine
end SchemaGraph
