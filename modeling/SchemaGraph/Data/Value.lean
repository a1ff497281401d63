import SchemaGraph.Json
import SchemaGraph.Text.Quoted

/-! # Data

What a catalog text holds once its notation is read: atoms, sequences and mappings. The two
notations differ in a few words only, so a `Format` goes with the messages. -/

namespace SchemaGraph

/-- The notations that texts are read and documents are written in. -/
inductive Format where
  | json
  | yaml
deriving Repr, DecidableEq, Inhabited

/-- A value without parts. A number that is no integer is kept as the text it is shown with. -/
inductive Atom where
  | null
  | bool (b : Bool)
  | int (n : Int)
  | float (text : String)
  | str (s : String)
deriving Repr, DecidableEq, Inhabited

/-- A value. Keys may be values of any sort. -/
inductive Value where
  | atom (a : Atom)
  | seq (items : List Value)
  | map (entries : List (Value × Value))
deriving Repr, BEq, Inhabited

/-- What a value looks like from outside. -/
inductive Look where
  | atom (a : Atom)
  | seq
  | map
deriving Repr, DecidableEq, Inhabited

namespace Atom

/-- An integer that fits 64 bits, with a sign if it is negative. -/
def fits (n : Int) : Bool := -(Nat.pow 2 63 : Int) ≤ n && n < (Nat.pow 2 64 : Int)

def describe (format : Format) : Atom → String
  | .null => match format with
    | .json => "null"
    | .yaml => "unit value"
  | .bool b => "boolean `" ++ (if b then "true" else "false") ++ "`"
  | .int n =>
    "integer `" ++ toString n ++ "`" ++
      (if fits n then "" else if n < 0 then " as i128" else " as u128")
  | .float text => "floating point `" ++ text ++ "`"
  | .str s => "string " ++ Text.quoted s

end Atom

def Look.describe (format : Format) : Look → String
  | .atom a => a.describe format
  | .seq => "sequence"
  | .map => "map"

namespace Value

def look : Value → Look
  | .atom a => .atom a
  | .seq _ => .seq
  | .map _ => .map

mutual

def ofJson : Json → Value
  | .null => .atom .null
  | .bool b => .atom (.bool b)
  | .int n => .atom (.int n)
  | .float text => .atom (.float text)
  | .str s => .atom (.str s)
  | .arr vs => .seq (ofJsons vs)
  | .obj fs => .map (ofFields fs)

def ofJsons : List Json → List Value
  | [] => []
  | v :: vs => ofJson v :: ofJsons vs

def ofFields : List (String × Json) → List (Value × Value)
  | [] => []
  | (k, v) :: fs => (.atom (.str k), ofJson v) :: ofFields fs

end

end Value
end SchemaGraph
