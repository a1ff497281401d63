/-! # Component keys

A component key holds ASCII letters, digits, `.`, `_` and `-` only. A type identity is written
in these by escapes, each between two hyphens: `<` becomes `-3C-`, and a hyphen `--`. -/

namespace SchemaGraph
namespace Key

/-- A character that stands for itself in a key. -/
def isVerbatim (c : Char) : Bool := c.isAlphanum || c == '.' || c == '_'

def isLegal (key : String) : Bool :=
  !key.toList.isEmpty && key.toList.all fun c => isVerbatim c || c == '-'

def hex (n : Nat) : List Char := (Nat.toDigits 16 n).map Char.toUpper

def encodeChar (c : Char) : List Char :=
  if isVerbatim c then [c]
  else if c == '-' then ['-', '-']
  else '-' :: hex c.toNat ++ ['-']

def encode (identity : String) : String := .ofList (identity.toList.flatMap encodeChar)

def hexDigit? (c : Char) : Option Nat :=
  if c.isDigit then some (c.toNat - '0'.toNat)
  else if 'a' ≤ c && c ≤ 'f' then some (c.toNat - 'a'.toNat + 10)
  else if 'A' ≤ c && c ≤ 'F' then some (c.toNat - 'A'.toNat + 10)
  else none

/-- The character of an escape with this code: one that could not stand for itself. -/
def escaped? (code : Nat) : Option Char :=
  if code.isValidChar then
    let c := Char.ofNat code
    if isVerbatim c || c == '-' then none else some c
  else none

inductive Place where
  /-- Between two characters of the identity. -/
  | between
  /-- Behind the hyphen that opens an escape. -/
  | opened
  /-- Inside an escape, after digits of this value. -/
  | inside (code : Nat)
deriving Repr, DecidableEq

/-- Undoes the escapes from a place in the key on. -/
def decodeFrom : Place → List Char → Option (List Char)
  | .between, [] => some []
  | _, [] => none
  | .between, c :: cs =>
    if isVerbatim c then (decodeFrom .between cs).map (c :: ·)
    else if c == '-' then decodeFrom .opened cs
    else none
  | .opened, c :: cs =>
    if c == '-' then (decodeFrom .between cs).map ('-' :: ·)
    else (hexDigit? c).bind fun d => decodeFrom (.inside d) cs
  | .inside code, c :: cs =>
    if c == '-' then
      (escaped? code).bind fun e => (decodeFrom .between cs).map (e :: ·)
    else (hexDigit? c).bind fun d => decodeFrom (.inside (code * 16 + d)) cs

def decode (key : String) : Option String := (decodeFrom .between key.toList).map .ofList

end Key
end SchemaGraph
