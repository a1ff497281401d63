import SchemaGraph.Table

/-! # File trees

Directories with files in them. -/

namespace SchemaGraph

inductive FileTree where
  | file (text : String)
  | directory (entries : List (String × FileTree))
deriving Inhabited

namespace FileTree

def empty : FileTree := .directory []

def isDirectory : FileTree → Bool
  | .directory _ => true
  | .file _ => false

/-- What stands at the end of the names. -/
def at? : FileTree → List String → Option FileTree
  | t, [] => some t
  | .file _, _ :: _ => none
  | .directory entries, name :: more => (Table.get? name entries).bind (at? · more)

/-- Puts a tree at the end of the names, with the directories that are missing on the way. Nothing
is put below a file. -/
def put : FileTree → List String → FileTree → FileTree
  | _, [], new => new
  | .file text, _ :: _, _ => .file text
  | .directory entries, name :: more, new =>
    let old := (Table.get? name entries).getD empty
    .directory (Table.put name (old.put more new) entries)

mutual

/-- The files below the names, with the names that lead to them. -/
def filesBelow (names : List String) : FileTree → List (List String × String)
  | .file text => [(names, text)]
  | .directory entries => entryFiles names entries

def entryFiles (names : List String) : List (String × FileTree) → List (List String × String)
  | [] => []
  | (name, t) :: more => filesBelow (names ++ [name]) t ++ entryFiles names more

end

def files (t : FileTree) : List (List String × String) := filesBelow [] t

end FileTree
end SchemaGraph
