import SchemaGraph.Files.FileAccess
import SchemaGraph.Files.FileTree

/-! # File systems

A file tree with a working directory in it. Its reads and writes are functions. -/

namespace SchemaGraph

/-- A tree and the names that lead to the working directory. -/
structure FileSystem where
  root : FileTree
  home : List String

namespace FileSystem

inductive Goal where
  /-- To a directory, by a last part that is no name. -/
  | directory (place : List String)
  /-- To the name in a directory, with slashes behind the name or not. -/
  | entry (place : List String) (name : String) (slashed : Bool)

/-- Follows the parts of a path from a directory. All names but the last are of directories. -/
def walk (root : FileTree) (place : List String) : List String → Except FileError Goal
  | [] => .ok (.directory place)
  | part :: more =>
    if Path.isIdle part then walk root place more
    else if part = ".." then walk root place.dropLast more
    else if more.all (· == "") then .ok (.entry place part (!more.isEmpty))
    else
      match root.at? (place ++ [part]) with
      | some (.directory _) => walk root (place ++ [part]) more
      | some (.file _) => .error .notADirectory
      | none => .error .notFound

def find (s : FileSystem) (path : String) : Except FileError Goal :=
  match Path.parts path with
  | "" :: more => walk s.root [] more
  | parts => walk s.root s.home parts

def isDirectory (s : FileSystem) (path : String) : Bool :=
  match s.find path with
  | .ok (.directory _) => true
  | .ok (.entry place name _) => (s.root.at? (place ++ [name])).any (·.isDirectory)
  | .error _ => false

def read (s : FileSystem) (path : String) : Except FileError String := do
  match ← s.find path with
  | .directory _ => .error .isADirectory
  | .entry place name slashed =>
    match s.root.at? (place ++ [name]) with
    | some (.directory _) => .error .isADirectory
    | some (.file text) => if slashed then .error .notADirectory else .ok text
    | none => .error .notFound

def write (s : FileSystem) (path text : String) : Except FileError FileSystem := do
  match ← s.find path with
  | .directory _ => .error .isADirectory
  | .entry place name slashed =>
    if slashed || s.isDirectory path then .error .isADirectory
    else .ok { s with root := s.root.put (place ++ [name]) (.file text) }

def makeDirectory (s : FileSystem) (path : String) : Except FileError FileSystem := do
  match ← s.find path with
  | .directory _ => .error .alreadyExists
  | .entry place name _ =>
    if (s.root.at? (place ++ [name])).isSome then .error .alreadyExists
    else .ok { s with root := s.root.put (place ++ [name]) .empty }

/-- Keeps the state unless the operation succeeds. -/
def update (f : FileSystem → Except FileError FileSystem) :
    StateM FileSystem (Except FileError Unit) :=
  fun s =>
    match f s with
    | .ok s' => (.ok (), s')
    | .error e => (.error e, s)

instance : FileAccess (StateM FileSystem) where
  read path := fun s => (s.read path, s)
  write path text := update (·.write path text)
  isDirectory path := fun s => (s.isDirectory path, s)
  makeDirectory path := update (·.makeDirectory path)

def ofFiles (home : List String) (files : List (String × String)) : FileSystem where
  root := files.foldl (fun t (path, text) => t.put (home ++ Path.steps path) (.file text))
    (FileTree.empty.put home .empty)
  home := home

/-- The paths and texts of the files in the working directory. -/
def homeFiles (s : FileSystem) : List (String × String) :=
  match s.root.at? s.home with
  | some t => t.files.map fun (names, text) => (Path.ofSteps names, text)
  | none => []

end FileSystem
end SchemaGraph
