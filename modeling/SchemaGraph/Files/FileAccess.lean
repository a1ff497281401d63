import SchemaGraph.Files.FileError
import SchemaGraph.Files.Path

/-! # Access to files

What a program needs of files, and what it makes of it. -/

namespace SchemaGraph

class FileAccess (m : Type → Type) where
  read (path : String) : m (Except FileError String)
  /-- Writes a text to a file, new or not. -/
  write (path text : String) : m (Except FileError Unit)
  isDirectory (path : String) : m Bool
  makeDirectory (path : String) : m (Except FileError Unit)

namespace FileAccess

variable {m : Type → Type} [Monad m] [FileAccess m]

def ensureDirectory (path : String) : m (Except FileError Unit) := do
  match ← makeDirectory path with
  | .ok () => return .ok ()
  | .error e => if ← isDirectory path then return .ok () else return .error e

/-- Makes the directory that steps lead to, the last step first. An outer directory is made only
when it is missed. -/
def ensureReversed : List String → m (Except FileError Unit)
  | [] => return .ok ()
  | step :: outer => do
    let path := Path.ofSteps (step :: outer).reverse
    match ← ensureDirectory path with
    | .error .notFound =>
      match ← ensureReversed outer with
      | .ok () => ensureDirectory path
      | .error e => return .error e
    | made => return made

def ensureSteps (steps : List String) : m (Except FileError Unit) := ensureReversed steps.reverse

end FileAccess
end SchemaGraph
