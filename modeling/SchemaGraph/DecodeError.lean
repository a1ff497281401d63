/-! # Decoding errors

Why a token list does not spell a type reference. -/

namespace SchemaGraph

/-- The causes of a failed decoding. All but `leftover` make the list malformed. -/
inductive DecodeError where
  | notAToken (text : String)
  /-- The arity suffix of the text is no number below 2^64. -/
  | arityOutOfRange (text : String)
  /-- An array token, as it was given, declares generic arguments. -/
  | genericArray (token : String)
  /-- The list ends at this position although a token is still due. -/
  | tokenExpected (position : Nat)
  /-- The reference is complete, so nothing claims the tokens that follow. -/
  | leftover (reference : String) (consumed : Nat) (tokens : List String)
deriving Repr, DecidableEq, Inhabited

namespace DecodeError

def isMalformed : DecodeError → Bool
  | .leftover .. => false
  | _ => true

/-- What went wrong, without the name of the error class. -/
def detail : DecodeError → String
  | .notAToken text => "'" ++ text ++ "' is not a valid type token"
  | .arityOutOfRange text => "arity suffix of '" ++ text ++ "' is out of range"
  | .genericArray token => "array token '" ++ token ++ "' cannot declare generic arguments"
  | .tokenExpected position =>
    "expected a type token at position " ++ toString position ++ ", found end of sequence"
  | .leftover reference consumed tokens =>
    "'" ++ reference ++ "' is complete after " ++ toString consumed ++ " token(s) but [" ++
      ", ".intercalate tokens ++ "] follow; only a generic token may claim further arguments"

def title (e : DecodeError) : String :=
  if e.isMalformed then "Malformed generic reference" else "Out of order generic reference"

def message (e : DecodeError) : String := e.title ++ ": " ++ e.detail

end DecodeError
end SchemaGraph
