import SchemaGraph.Decimal.Binary64
import SchemaGraph.Data.Node

/-! # YAML scalars

What a plain scalar stands for by the core schema of YAML 1.2, and what tags make of it. -/

namespace SchemaGraph
namespace Yaml

/-! ## Plain scalars -/

def isNullWord (cs : List Char) : Bool :=
  ["null", "Null", "NULL", "~"].any (·.toList == cs)

def bool? (cs : List Char) : Option Bool :=
  if ["true", "True", "TRUE"].any (·.toList == cs) then some true
  else if ["false", "False", "FALSE"].any (·.toList == cs) then some false
  else none

def digitValue? (radix : Nat) (c : Char) : Option Nat :=
  let d := if c.isDigit then some (c.toNat - '0'.toNat)
    else if 'a' ≤ c && c ≤ 'f' then some (c.toNat - 'a'.toNat + 10)
    else if 'A' ≤ c && c ≤ 'F' then some (c.toNat - 'A'.toNat + 10)
    else none
  d.filter (· < radix)

def digits? (radix : Nat) (cs : List Char) : Option Nat :=
  if cs.isEmpty then none
  else cs.foldlM (fun n c => (digitValue? radix c).map fun d => n * radix + d) 0

def hasLeadingZero (cs : List Char) : Bool :=
  let ds := match cs with
    | '-' :: ds | '+' :: ds => ds
    | ds => ds
  ds.length > 1 && ds.head? == some '0' && ds.all Char.isDigit

/-- The number without a sign, in the radix that a mark in front says. -/
def magnitude? (cs : List Char) : Option Nat :=
  match cs with
  | '0' :: 'x' :: ds => digits? 16 ds
  | '0' :: 'o' :: ds => digits? 8 ds
  | '0' :: 'b' :: ds => digits? 2 ds
  | ds => if hasLeadingZero ds then none else digits? 10 ds

/-- An integer of up to 128 bits. -/
def int? (cs : List Char) : Option Int :=
  match cs with
  | '-' :: cs =>
    (magnitude? cs).bind fun n => if n ≤ Nat.pow 2 127 then some (-(n : Int)) else none
  | '+' :: cs => (magnitude? cs).bind fun n => if n < Nat.pow 2 128 then some (n : Int) else none
  | cs => (magnitude? cs).bind fun n => if n < Nat.pow 2 128 then some (n : Int) else none

/-- The exponent behind the digits of a number; none when there is nothing. -/
def exponent? (cs : List Char) : Option Int :=
  match cs with
  | [] => some 0
  | c :: cs =>
    if c == 'e' || c == 'E' then
      match cs with
      | '-' :: ds => (digits? 10 ds).map fun n => -(n : Int)
      | '+' :: ds => (digits? 10 ds).map fun n => (n : Int)
      | ds => (digits? 10 ds).map fun n => (n : Int)
    else none

/-- A decimal number without a sign, if it is not too large. -/
def decimal? (cs : List Char) : Option Binary64 :=
  let whole := cs.takeWhile Char.isDigit
  let (fraction, rest) := match cs.dropWhile Char.isDigit with
    | '.' :: cs => (cs.takeWhile Char.isDigit, cs.dropWhile Char.isDigit)
    | cs => ([], cs)
  match digits? 10 (whole ++ fraction), exponent? rest with
  | some n, some e => Binary64.ofDecimal n (e - fraction.length)
  | _, _ => none

def float? (cs : List Char) : Option String :=
  let text (sign : List Char) (cs : List Char) : Option String :=
    (decimal? cs).map fun x => .ofList (sign ++ x.plainText)
  if [".inf", ".Inf", ".INF", "+.inf", "+.Inf", "+.INF"].any (·.toList == cs) then some "inf"
  else if ["-.inf", "-.Inf", "-.INF"].any (·.toList == cs) then some "-inf"
  else if [".nan", ".NaN", ".NAN"].any (·.toList == cs) then some "NaN"
  else match cs with
    | '-' :: cs => text ['-'] cs
    | '+' :: cs => text [] cs
    | cs => text [] cs

def atomOf (cs : List Char) : Atom :=
  if cs.isEmpty || isNullWord cs then .null
  else match bool? cs with
    | some b => .bool b
    | none =>
      match int? cs with
      | some n => .int n
      | none =>
        if hasLeadingZero cs then .str (.ofList cs)
        else match float? cs with
          | some text => .float text
          | none => .str (.ofList cs)

/-! ## Tags -/

/-- A tag that no schema gives a meaning to, written with one exclamation mark. -/
def isLocalTag (tag : String) : Bool := tag.toList.head? == some '!'

def coreTag (name : String) : String := "tag:yaml.org,2002:" ++ name

/-- What a scalar stands for under a tag that is not local. -/
def taggedAtom (tag : String) (cs : List Char) : Except ReadError Atom :=
  let given : Look := .atom (.str (.ofList cs))
  if tag == coreTag "bool" then
    match bool? cs with
    | some b => .ok (.bool b)
    | none => .error (.invalidValue given "a boolean")
  else if tag == coreTag "int" then
    match int? cs with
    | some n => .ok (.int n)
    | none => .error (.invalidValue given "an integer")
  else if tag == coreTag "float" then
    match float? cs with
    | some text => .ok (.float text)
    | none => .error (.invalidValue given "a float")
  else if tag == coreTag "null" then
    if isNullWord cs then .ok .null else .error (.invalidValue given "null")
  else .ok (.str (.ofList cs))

/-- A scalar of this text, plain or quoted. Any scalar will do as a text. -/
def scalarOf (tag : Option String) (plain : Bool) (cs : List Char) : Scalar :=
  let untagged : Atom := if plain then atomOf cs else .str (.ofList cs)
  let text : Option String := some (.ofList cs)
  let blank := plain && cs.isEmpty
  match tag with
  | none => { value := .ok untagged, text, blank }
  | some tag =>
    if isLocalTag tag then { value := .error .broken, seen := .ok untagged, text, blank }
    else { value := taggedAtom tag cs, text, blank }

end Yaml
end SchemaGraph
