import SchemaGraph.CommandLine.Run

/-! # The program

Gives the commands the files and variables of the process, prints what they answer and exits. -/

namespace SchemaGraph
namespace CommandLine

/-- The number of an error; some operations report it negated. -/
def errorNumber (code : UInt32) : Nat :=
  if code.toNat < Nat.pow 2 31 then code.toNat else Nat.pow 2 32 - code.toNat

def fileError (e : IO.Error) : FileError :=
  match e with
  | .alreadyExists _ _ _ => .alreadyExists
  | .noFileOrDirectory _ _ _ => .notFound
  | .inappropriateType _ code detail | .permissionDenied _ code detail
  | .otherError code detail | .invalidArgument _ code detail
  | .resourceExhausted _ code detail | .unsupportedOperation code detail
  | .hardwareFault code detail | .resourceBusy code detail | .interrupted _ code detail =>
    .ofCode (errorNumber code) detail
  | e => .other 0 (toString e)

/-- Does an operation and keeps its error. -/
def observe {α : Type} (operation : IO α) : IO (Except FileError α) := do
  match ← operation.toBaseIO with
  | .ok a => return .ok a
  | .error e => return .error (fileError e)

/-- Reads the first byte of a file, which a directory refuses. -/
def firstByte (path : String) : IO ByteArray := do
  (← IO.FS.Handle.mk path .read).read 1

instance : FileAccess IO where
  read path := observe (IO.FS.readFile path)
  write path text := observe (IO.FS.writeFile path text)
  isDirectory path := return (← observe (firstByte path)) matches .error .isADirectory
  makeDirectory path := observe (IO.FS.createDir path)

def environment : IO Environment := do
  let catalogs ← IO.getEnv CompileRequest.catalogVariable
  let format ← IO.getEnv CompileRequest.formatVariable
  return fun name =>
    if name = CompileRequest.catalogVariable then catalogs
    else if name = CompileRequest.formatVariable then format
    else none

end CommandLine
end SchemaGraph

open SchemaGraph CommandLine in
def main (arguments : List String) : IO UInt32 := do
  let outcome : Outcome ← run (← environment) arguments
  (← IO.getStdout).putStr outcome.output
  if outcome.report ≠ "" then (← IO.getStderr).putStr (outcome.report ++ "\n")
  return outcome.exit.toUInt32
