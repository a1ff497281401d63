/-! # File errors

Why a file cannot be read or written. -/

namespace SchemaGraph

inductive FileError where
  | notFound
  | permissionDenied
  | alreadyExists
  | notADirectory
  | isADirectory
  /-- Any other refusal by the operating system, with its number and wording. -/
  | other (code : Nat) (detail : String)
deriving Repr, DecidableEq, Inhabited

namespace FileError

def code : FileError → Nat
  | .notFound => 2
  | .permissionDenied => 13
  | .alreadyExists => 17
  | .notADirectory => 20
  | .isADirectory => 21
  | .other code _ => code

/-- The error in one word. -/
def kind : FileError → String
  | .notFound => "NotFound"
  | .permissionDenied => "PermissionDenied"
  | .alreadyExists => "AlreadyExists"
  | .notADirectory => "NotADirectory"
  | .isADirectory => "IsADirectory"
  | .other .. => "Uncategorized"

def detail : FileError → String
  | .notFound => "No such file or directory"
  | .permissionDenied => "Permission denied"
  | .alreadyExists => "File exists"
  | .notADirectory => "Not a directory"
  | .isADirectory => "Is a directory"
  | .other _ detail => detail

def message (e : FileError) : String := e.detail ++ " (os error " ++ toString e.code ++ ")"

def ofCode (code : Nat) (detail : String) : FileError :=
  match code with
  | 2 => .notFound
  | 13 => .permissionDenied
  | 17 => .alreadyExists
  | 20 => .notADirectory
  | 21 => .isADirectory
  | _ => .other code detail

end FileError
end SchemaGraph
