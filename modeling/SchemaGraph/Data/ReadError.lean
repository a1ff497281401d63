import SchemaGraph.Data.Value
import SchemaGraph.DecodeError

/-! # Reading errors

Why a text does not hold what it should. -/

namespace SchemaGraph

inductive ReadError where
  /-- The text does not follow its notation, or goes beyond what is supported of it. -/
  | broken
  | missingField (name : String)
  | duplicateField (name : String)
  | unknownVariant (name : String) (known : List String)
  | invalidType (found : Look) (expected : String)
  | invalidValue (found : Look) (expected : String)
  | invalidLength (length : Nat) (expected : String)
  /-- A type reference that is neither a token nor a list of tokens. -/
  | noReference
  | emptyReference
  | decode (cause : DecodeError)
deriving Repr, DecidableEq, Inhabited

namespace ReadError

/-- Names between back quotes, separated by commas. -/
def listed (names : List String) : String :=
  ", ".intercalate (names.map fun name => "`" ++ name ++ "`")

def message (format : Format) : ReadError → String
  | .broken => "malformed text"
  | .missingField name => "missing field `" ++ name ++ "`"
  | .duplicateField name => "duplicate field `" ++ name ++ "`"
  | .unknownVariant name known =>
    "unknown variant `" ++ name ++ "`, expected one of " ++ listed known
  | .invalidType found expected =>
    "invalid type: " ++ found.describe format ++ ", expected " ++ expected
  | .invalidValue found expected =>
    "invalid value: " ++ found.describe format ++ ", expected " ++ expected
  | .invalidLength length expected =>
    "invalid length " ++ toString length ++ ", expected " ++ expected
  | .noReference => "data did not match any variant of untagged enum RawReference"
  | .emptyReference => "Catalog Error: empty type reference"
  | .decode cause => cause.message

/-- The error says more than that the text cannot be read. -/
def isDetailed : ReadError → Bool
  | .broken | .invalidValue .. => false
  | _ => true

/-- The message behind a colon, for the errors that tell more. -/
def suffix (format : Format) (e : ReadError) : String :=
  if e.isDetailed then ": " ++ e.message format else ""

end ReadError
end SchemaGraph
