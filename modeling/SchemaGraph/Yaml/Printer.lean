import SchemaGraph.Yaml.Input
import SchemaGraph.Yaml.Scalar

/-! # Writing YAML

A JSON value as a YAML document in block style. A string is written in the plainest style that
reads back as the same string. -/

namespace SchemaGraph
namespace Yaml

/-! ## Characters -/

/-- A character that stands for itself outside double quotes. -/
def isWritable (c : Char) : Bool :=
  let n := c.toNat
  n == 0x0A || (0x20 ≤ n && n ≤ 0x7E) || (0xA0 ≤ n && n ≤ 0xFFFD && n != 0xFEFF) ||
    0x10000 ≤ n

/-- A character that starts something other than a plain scalar. -/
def isIndicator (c : Char) : Bool := "#,[]\x7b\x7d&*!|>'\"%@\x60".toList.contains c

/-! ## Styles -/

inductive Style where
  | plain
  | single
  | double
  | literal
deriving Repr, DecidableEq

/-- A character at which a plain scalar would end or turn into something else, given the
characters before and after it. -/
def breaksPlain (before : Option Char) (c : Char) (after : Option Char) : Bool :=
  match before with
  | none => isIndicator c || ((c == '?' || c == ':' || c == '-') && endsWord after)
  | some b => (c == ':' && endsWord after) || (c == '#' && endsWord (some b))

/-- Some character, with the characters before and after it, satisfies a property. -/
def anyBetween (p : Option Char → Char → Option Char → Bool) :
    Option Char → List Char → Bool
  | _, [] => false
  | before, c :: cs => p before c cs.head? || anyBetween p (some c) cs

/-- What the choice of a style depends on. -/
structure Features where
  hasIndicators : Bool
  hasBreaks : Bool
  hasUnwritable : Bool
  /-- A space or a break is the first or the last character. -/
  looseEnds : Bool
  trailingSpace : Bool
  breakSpace : Bool
  spaceBreak : Bool
deriving Repr, DecidableEq

def features (cs : List Char) : Features where
  hasIndicators :=
    cs.take 3 == ['-', '-', '-'] || cs.take 3 == ['.', '.', '.'] || anyBetween breaksPlain none cs
  hasBreaks := cs.any isBreak
  hasUnwritable := cs.any fun c => !isWritable c
  looseEnds := [cs.head?, cs.getLast?].any fun c => c.any fun c => c == ' ' || isBreak c
  trailingSpace := cs.getLast? == some ' '
  breakSpace := anyBetween (fun before c _ => c == ' ' && before.any isBreak) none cs
  spaceBreak := anyBetween (fun before c _ => isBreak c && before == some ' ') none cs

namespace Features

def allowsSingle (f : Features) : Bool := !f.breakSpace && !f.spaceBreak && !f.hasUnwritable

def allowsPlain (f : Features) : Bool :=
  f.allowsSingle && !f.hasIndicators && !f.hasBreaks && !f.looseEnds

def allowsLiteral (f : Features) : Bool := !f.trailingSpace && !f.spaceBreak && !f.hasUnwritable

end Features

/-- A plain scalar of this text would not be read as a string. -/
def isAmbiguous (cs : List Char) : Bool :=
  match atomOf cs with
  | .str _ => hasLeadingZero cs
  | _ => true

def style (cs : List Char) : Style :=
  let f := features cs
  if cs.contains '\n' then (if f.allowsLiteral then .literal else .double)
  else if f.allowsPlain && !isAmbiguous cs then .plain
  else if f.allowsSingle then .single
  else .double

/-- The longest key, in bytes of UTF-8, that is written without a question mark. -/
def maxKeySize : Nat := 128

/-- A key that is written in front of its colon. -/
def isSimpleKey (cs : List Char) : Bool :=
  (String.ofList cs).utf8ByteSize ≤ maxKeySize && !cs.any isBreak

/-! ## Scalars -/

def spaces (n : Nat) : List Char := List.replicate n ' '

def hexDigits (width n : Nat) : List Char :=
  let ds := (Nat.toDigits 16 n).map Char.toUpper
  List.replicate (width - ds.length) '0' ++ ds

def escaped (c : Char) : List Char :=
  let n := c.toNat
  let short : List (Nat × Char) := [(0x00, '0'), (0x07, 'a'), (0x08, 'b'), (0x09, 't'),
    (0x0A, 'n'), (0x0B, 'v'), (0x0C, 'f'), (0x0D, 'r'), (0x1B, 'e'), (0x22, '"'), (0x5C, '\\'),
    (0x85, 'N'), (0xA0, '_'), (0x2028, 'L'), (0x2029, 'P')]
  match short.find? (·.1 == n) with
  | some (_, e) => ['\\', e]
  | none =>
    if n ≤ 0xFF then '\\' :: 'x' :: hexDigits 2 n
    else if n ≤ 0xFFFF then '\\' :: 'u' :: hexDigits 4 n
    else '\\' :: 'U' :: hexDigits 8 n

def doubleQuoted (cs : List Char) : List Char :=
  '"' :: (cs.flatMap fun c =>
    if !isWritable c || isBreak c || c == '"' || c == '\\' then escaped c else [c]) ++ ['"']

/-- The characters between single quotes. Behind a break the line is indented. -/
def singleBody (indent : Nat) : Bool → List Char → List Char
  | broken, [] => if broken then spaces indent else []
  | broken, c :: cs =>
    if isBreak c then c :: singleBody indent true cs
    else
      (if broken then spaces indent else []) ++ (if c == '\'' then ['\'', '\''] else [c]) ++
        singleBody indent false cs

def singleQuoted (indent : Nat) (cs : List Char) : List Char :=
  '\'' :: singleBody indent false cs ++ ['\'']

/-- The lines of a literal. Every line with characters on it is indented. -/
def literalBody (indent : Nat) : Bool → List Char → List Char
  | fresh, [] => if fresh then [] else ['\n']
  | fresh, c :: cs =>
    if isBreak c then c :: literalBody indent true cs
    else (if fresh then spaces indent else []) ++ c :: literalBody indent false cs

/-- The marks behind the bar: an indentation if the text does not show it, and what becomes of
the breaks at the end. -/
def literalHints (cs : List Char) : List Char :=
  let first := match cs.head? with
    | some c => if c == ' ' || isBreak c then ['2'] else []
    | none => []
  let last := match cs.reverse with
    | [] => ['-']
    | c :: rest =>
      if !isBreak c then ['-']
      else match rest with
        | [] => ['+']
        | d :: _ => if isBreak d then ['+'] else []
  first ++ last

/-- A string with the break of its last line. Further lines of it are indented. -/
def stringText (indent : Nat) (s : String) : String :=
  let cs := s.toList
  .ofList <| match style cs with
    | .plain => cs ++ ['\n']
    | .single => singleQuoted indent cs ++ ['\n']
    | .double => doubleQuoted cs ++ ['\n']
    | .literal => '|' :: literalHints cs ++ '\n' :: literalBody indent true cs

/-- A key without the break of its line. -/
def keyText (s : String) : String :=
  .ofList <| match style s.toList with
    | .plain => s.toList
    | .single => singleQuoted 0 s.toList
    | _ => doubleQuoted s.toList

/-! ## Documents -/

/-- The text of an atom, or an empty collection, with the break of its line. -/
def atomText (indent : Nat) : Json → String
  | .str s => stringText indent s
  | v => Json.atomText v ++ "\n"

def pad (n : Nat) : String := .ofList (spaces n)

/-- A key up to its colon: in front of it, or behind a question mark on lines before it. -/
def entryHead (indent : Nat) (k : String) : String :=
  if isSimpleKey k.toList then keyText k ++ ":"
  else "? " ++ stringText (indent + 2) k ++ pad indent ++ ":"

mutual

/-- What stands behind the colon of a simple key in a mapping indented by `indent`. A sequence
stands at the indentation of its key. -/
def fieldText (indent : Nat) : Json → String
  | .arr (v :: vs) => "\n" ++ pad indent ++ "-" ++ inlineText indent v ++ itemsText indent vs
  | .obj ((k, v) :: fs) =>
    "\n" ++ pad (indent + 2) ++ entryHead (indent + 2) k ++
      (if isSimpleKey k.toList then fieldText (indent + 2) v else inlineText (indent + 2) v) ++
      entriesText (indent + 2) fs
  | v => " " ++ atomText (indent + 2) v

/-- What stands behind a dash, or the colon of its own line. A collection starts on the same
line. -/
def inlineText (indent : Nat) : Json → String
  | .arr (v :: vs) => " -" ++ inlineText (indent + 2) v ++ itemsText (indent + 2) vs
  | .obj ((k, v) :: fs) =>
    " " ++ entryHead (indent + 2) k ++
      (if isSimpleKey k.toList then fieldText (indent + 2) v else inlineText (indent + 2) v) ++
      entriesText (indent + 2) fs
  | v => " " ++ atomText (indent + 2) v

def itemsText (indent : Nat) : List Json → String
  | [] => ""
  | v :: vs => pad indent ++ "-" ++ inlineText indent v ++ itemsText indent vs

def entriesText (indent : Nat) : List (String × Json) → String
  | [] => ""
  | (k, v) :: fs =>
    pad indent ++ entryHead indent k ++
      (if isSimpleKey k.toList then fieldText indent v else inlineText indent v) ++
      entriesText indent fs

end

def documentText : Json → String
  | .obj (f :: fs) => entriesText 0 (f :: fs)
  | .arr (v :: vs) => itemsText 0 (v :: vs)
  | v => atomText 2 v

end Yaml
end SchemaGraph
