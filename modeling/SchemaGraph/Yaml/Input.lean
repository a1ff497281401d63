/-! # Input

The rest of a YAML text and the place where it starts. -/

namespace SchemaGraph
namespace Yaml

/-- A line break of YAML 1.1. -/
def isBreak (c : Char) : Bool :=
  c == '\n' || c == '\r' || c.toNat == 0x85 || c.toNat == 0x2028 || c.toNat == 0x2029

def isSpaceOrTab (c : Char) : Bool := c == ' ' || c == '\t'

/-- A space, a tab, a line break, or no character at all. -/
def endsWord : Option Char → Bool
  | none => true
  | some c => isSpaceOrTab c || isBreak c

/-- A character of names: of anchors, and of the handles of tags. -/
def isNameChar (c : Char) : Bool := c.isAlphanum || c == '_' || c == '-'

/-- A place in a text, and the text from there on. -/
structure Input where
  rest : List Char
  line : Nat
  column : Nat
  /-- The number of characters in front. -/
  index : Nat
  /-- The number of characters of the whole text. -/
  size : Nat
deriving Inhabited

namespace Input

def ofChars (cs : List Char) : Input := ⟨cs, 0, 0, 0, cs.length⟩

/-- More steps than the rest of the text can take, if every step passes over a character. -/
def fuel (i : Input) : Nat := i.size + 1

/-- The character `n` places ahead. -/
def peek? (i : Input) (n : Nat) : Option Char := i.rest[n]?

def isAt (i : Input) (c : Char) : Bool := i.rest.head? == some c

def endsAt (i : Input) (n : Nat) : Bool := endsWord (i.peek? n)

def skip (i : Input) (n : Nat) : Input :=
  { i with rest := i.rest.drop n, column := i.column + n, index := i.index + n }

def skipWhile (i : Input) (p : Char → Bool) : Input := i.skip (i.rest.takeWhile p).length

/-- The line break at the front, as the text that it stands for, and its length. -/
def break? (i : Input) : Option (List Char × Nat) :=
  match i.rest with
  | [] => none
  | '\r' :: '\n' :: _ => some (['\n'], 2)
  | c :: _ =>
    if c == '\n' || c == '\r' || c.toNat == 0x85 then some (['\n'], 1)
    else if isBreak c then some ([c], 1)
    else none

def skipBreak (i : Input) (n : Nat) : Input :=
  { i with rest := i.rest.drop n, line := i.line + 1, column := 0, index := i.index + n }

/-- Passes over the rest of a line that holds no more than spaces and a comment. -/
def endLine? (i : Input) : Option Input :=
  let i := i.skipWhile isSpaceOrTab
  let i := if i.isAt '#' then i.skipWhile (!isBreak ·) else i
  match i.rest.head? with
  | none => some i
  | some c => if isBreak c then some i else none

/-- A line that starts with three equal marks and nothing else. -/
def startsWith3 (i : Input) (c : Char) : Bool :=
  i.column == 0 && i.rest.take 3 == [c, c, c] && i.endsAt 3

/-- A line that ends a document or starts one. -/
def atDocumentMark (i : Input) : Bool := i.startsWith3 '-' || i.startsWith3 '.'

end Input
end Yaml
end SchemaGraph
