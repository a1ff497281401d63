import SchemaGraph.Text.Blank
import SchemaGraph.Text.DecimalDigit
import SchemaGraph.DecodeError

/-! # Type tokens

One token of a flattened type reference: a base, an optional arity suffix (a back quote and a
number) and any number of array markers `[]`. -/

namespace SchemaGraph

/-- The character between a base and its arity. -/
def arityMark : Char := '\x60'

/-- A token taken apart. -/
structure Token where
  /-- The base with its arity suffix as written, without array markers. -/
  name : String
  /-- The declared number of generic arguments, 0 without a suffix. -/
  arity : Nat
  /-- The number of array markers. -/
  rank : Nat
deriving Repr, DecidableEq, Inhabited

namespace Token

def isBaseChar (c : Char) : Bool :=
  !(c == arityMark || c == '[' || c == ']' || c == '<' || c == '>' || c == ',' || Text.isBlank c)

/-- Cuts an arity suffix off the front: its digits, if there is one, and the rest. -/
def cutSuffix : List Char → Option (List Char) × List Char
  | [] => (none, [])
  | c :: cs =>
    let digits := cs.takeWhile Text.isDecimalDigit
    if c == arityMark && !digits.isEmpty then (some digits, cs.dropWhile Text.isDecimalDigit)
    else (none, c :: cs)

/-- The number of array markers in a text that holds nothing else. -/
def markers? : List Char → Option Nat
  | [] => some 0
  | '[' :: ']' :: cs => (markers? cs).map (· + 1)
  | _ => none

def numeral (digits : List Char) : Nat :=
  digits.foldl (fun n c => n * 10 + (c.toNat - '0'.toNat)) 0

/-- The number that the digits of an arity suffix stand for: ASCII digits, below 2^64. -/
def arity? (digits : List Char) : Option Nat :=
  if digits.all Char.isDigit && numeral digits < Nat.pow 2 64 then some (numeral digits) else none

/-- Reads a token from text without blank ends. -/
def ofChars (text : List Char) : Except DecodeError Token :=
  let base := text.takeWhile isBaseChar
  let (suffix, rest) := cutSuffix (text.dropWhile isBaseChar)
  match base.isEmpty, markers? rest with
  | false, some rank =>
    match suffix with
    | none => .ok ⟨.ofList base, 0, rank⟩
    | some digits =>
      match arity? digits with
      | some arity => .ok ⟨.ofList (base ++ arityMark :: digits), arity, rank⟩
      | none => .error (.arityOutOfRange (.ofList text))
  | _, _ => .error (.notAToken (.ofList text))

/-- Reads a token; blank characters around it do not count. -/
def parse (raw : String) : Except DecodeError Token := ofChars (Text.trim raw.toList)

def isArray (t : Token) : Bool := t.rank != 0

def isGeneric (t : Token) : Bool := t.arity != 0

/-- The text of the token with `rank` array markers behind its name. -/
def marked (name : String) : Nat → String
  | 0 => name
  | rank + 1 => marked name rank ++ "[]"

/-- The text of an array token's element, and of any other token the token itself. -/
def elementText (t : Token) : String := marked t.name (t.rank - 1)

end Token

/-- The name without its arity suffix; only ASCII digits make a suffix here. -/
def stripArity (name : String) : String :=
  let back := name.toList.reverse
  match (back.takeWhile Char.isDigit).isEmpty, back.dropWhile Char.isDigit with
  | false, c :: base => if c == arityMark then .ofList base.reverse else name
  | _, _ => name

end SchemaGraph
