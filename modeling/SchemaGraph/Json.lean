import SchemaGraph.Table

/-! # JSON values

Values with the fields of an object in order, and their text without spaces. -/

namespace SchemaGraph

/-- A JSON value. A number that is no integer is kept as the text it is shown with. -/
inductive Json where
  | null
  | bool (b : Bool)
  | int (n : Int)
  | float (text : String)
  | str (s : String)
  | arr (items : List Json)
  | obj (fields : List (String × Json))
deriving Repr, BEq, Inhabited

namespace Json

abbrev nat (n : Nat) : Json := .int n

/-- The object of the given fields, those without a value left out. -/
def ofFields (fields : List (String × Option Json)) : Json :=
  .obj (fields.filterMap fun f => f.2.map fun v => (f.1, v))

mutual

def depth : Json → Nat
  | .arr vs => depthItems vs + 1
  | .obj fs => depthFields fs + 1
  | _ => 0

def depthItems : List Json → Nat
  | [] => 0
  | v :: vs => max (depth v) (depthItems vs)

def depthFields : List (String × Json) → Nat
  | [] => 0
  | (_, v) :: fs => max (depth v) (depthFields fs)

end

/-! ## Strings -/

def hexDigit (n : Nat) : Char := Nat.digitChar n

/-- A character inside a string: the quote, the backslash and control characters are escaped. -/
def quoteChar (c : Char) : List Char :=
  if c == '"' then ['\\', '"']
  else if c == '\\' then ['\\', '\\']
  else if c == '\n' then ['\\', 'n']
  else if c == '\r' then ['\\', 'r']
  else if c == '\t' then ['\\', 't']
  else if c.toNat == 8 then ['\\', 'b']
  else if c.toNat == 12 then ['\\', 'f']
  else if c.toNat < 0x20 then
    ['\\', 'u', '0', '0', hexDigit (c.toNat / 16), hexDigit (c.toNat % 16)]
  else [c]

def quote (s : String) : String := .ofList ('"' :: s.toList.flatMap quoteChar ++ ['"'])

/-! ## Text -/

def atomText : Json → String
  | .null => "null"
  | .bool b => if b then "true" else "false"
  | .int n => toString n
  | .float text => text
  | .str s => quote s
  | .arr _ => "[]"
  | .obj _ => "\x7b\x7d"

mutual

def compact : Json → String
  | .arr (v :: vs) => "[" ++ compact v ++ compactItems vs ++ "]"
  | .obj ((k, v) :: fs) => "\x7b" ++ quote k ++ ":" ++ compact v ++ compactFields fs ++ "\x7d"
  | v => atomText v

def compactItems : List Json → String
  | [] => ""
  | v :: vs => "," ++ compact v ++ compactItems vs

def compactFields : List (String × Json) → String
  | [] => ""
  | (k, v) :: fs => "," ++ quote k ++ ":" ++ compact v ++ compactFields fs

end

/-- The start of a line at a nesting depth, two spaces for each level. -/
def lineStart (depth : Nat) : String := .ofList ('\n' :: List.replicate (2 * depth) ' ')

mutual

/-- The text with each item and field on a line of its own. -/
def pretty (depth : Nat) : Json → String
  | .arr (v :: vs) =>
    "[" ++ lineStart (depth + 1) ++ pretty (depth + 1) v ++ prettyItems (depth + 1) vs ++
      lineStart depth ++ "]"
  | .obj ((k, v) :: fs) =>
    "\x7b" ++ lineStart (depth + 1) ++ quote k ++ ": " ++ pretty (depth + 1) v ++
      prettyFields (depth + 1) fs ++ lineStart depth ++ "\x7d"
  | v => atomText v

def prettyItems (depth : Nat) : List Json → String
  | [] => ""
  | v :: vs => "," ++ lineStart depth ++ pretty depth v ++ prettyItems depth vs

def prettyFields (depth : Nat) : List (String × Json) → String
  | [] => ""
  | (k, v) :: fs =>
    "," ++ lineStart depth ++ quote k ++ ": " ++ pretty depth v ++ prettyFields depth fs

end

end Json
end SchemaGraph
