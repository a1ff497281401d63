import SchemaGraph.Json.Number
import SchemaGraph.Data.Event

/-! # Reading JSON

A JSON text as a run of events. A string with half of a surrogate pair and a number out of
range are faults only where their value is asked for. -/

namespace SchemaGraph
namespace Json

def isSpace (c : Char) : Bool := c == ' ' || c == '\n' || c == '\r' || c == '\t'

/-! ## Strings -/

/-- A part of a string: a character, or a 16-bit unit given by its number. -/
inductive Part where
  | char (c : Char)
  | unit (n : Nat)
deriving Repr, DecidableEq

def hexValue? (c : Char) : Option Nat :=
  if c.isDigit then some (c.toNat - '0'.toNat)
  else if 'a' ≤ c && c ≤ 'f' then some (c.toNat - 'a'.toNat + 10)
  else if 'A' ≤ c && c ≤ 'F' then some (c.toNat - 'A'.toNat + 10)
  else none

def unit? (a b c d : Char) : Option Nat := do
  let high := (← hexValue? a) * 16 + (← hexValue? b)
  let low := (← hexValue? c) * 16 + (← hexValue? d)
  return high * 256 + low

def escape? (c : Char) : Option Char :=
  if c == '"' || c == '\\' || c == '/' then some c
  else if c == 'b' then some '\x08'
  else if c == 'f' then some '\x0c'
  else if c == 'n' then some '\n'
  else if c == 'r' then some '\r'
  else if c == 't' then some '\t'
  else none

/-- The parts of a string up to its closing quote, and what follows it. -/
def parts (acc : List Part) : List Char → Option (List Part × List Char)
  | [] => none
  | '"' :: cs => some (acc.reverse, cs)
  | '\\' :: 'u' :: a :: b :: c :: d :: cs =>
    match unit? a b c d with
    | some n => parts (.unit n :: acc) cs
    | none => none
  | '\\' :: e :: cs =>
    match escape? e with
    | some c => parts (.char c :: acc) cs
    | none => none
  | c :: cs => if c.toNat < 0x20 || c == '\\' then none else parts (.char c :: acc) cs

/-- Joins surrogate pairs; half of a pair by itself makes no text. -/
def joined (acc : List Char) : List Part → Option (List Char)
  | [] => some acc.reverse
  | .char c :: ps => joined (c :: acc) ps
  | .unit n :: ps =>
    if n < 0xD800 || 0xDFFF < n then joined (Char.ofNat n :: acc) ps
    else
      match ps with
      | .unit m :: ps =>
        if n < 0xDC00 && 0xDC00 ≤ m && m ≤ 0xDFFF then
          joined (Char.ofNat (0x10000 + (n - 0xD800) * 0x400 + (m - 0xDC00)) :: acc) ps
        else none
      | _ => none

def stringScalar (ps : List Part) : Scalar :=
  match joined [] ps with
  | some cs => { value := .ok (.str (.ofList cs)), text := some (.ofList cs) }
  | none => { value := .error .broken }

/-! ## Events -/

inductive Place where
  | value
  | firstItem
  | firstKey
  | key
  /-- A comma, or the end of a collection or the text. -/
  | after
deriving Repr, DecidableEq

def word? (cs : List Char) : Option (Atom × List Char) :=
  match cs with
  | 't' :: 'r' :: 'u' :: 'e' :: cs => some (.bool true, cs)
  | 'f' :: 'a' :: 'l' :: 's' :: 'e' :: cs => some (.bool false, cs)
  | 'n' :: 'u' :: 'l' :: 'l' :: cs => some (.null, cs)
  | _ => none

def scalar? (cs : List Char) : Option (Scalar × List Char) :=
  match cs with
  | [] => none
  | c :: rest =>
    if c == '"' then (parts [] rest).map fun (ps, rest) => (stringScalar ps, rest)
    else if c == '-' || c.isDigit then
      (Numeral.read cs).map fun (n, rest) => ({ value := n.atom }, rest)
    else (word? cs).map fun (a, rest) => ({ value := .ok a }, rest)

/-- The events in `acc`, which are in reverse order, and then a fault. -/
def breakOff (acc : List Event) : List Event := (.broken :: acc).reverse

/-- The events of a text from a place on, behind those in `acc`, which are in reverse order.
`isMap` tells of each open collection, the innermost first, whether it is an object. -/
def eventsFrom : Nat → Place → List Bool → List Char → List Event → List Event
  | 0, _, _, _, acc => breakOff acc
  | fuel + 1, place, isMap, cs, acc =>
    let close (closes : Bool) (rest : List Char) : List Event :=
      match isMap with
      | m :: outer =>
        if m == closes then eventsFrom fuel .after outer rest (.close :: acc) else breakOff acc
      | [] => breakOff acc
    match place, cs.dropWhile isSpace with
    | .after, [] => if isMap.isEmpty then acc.reverse else breakOff acc
    | _, [] => breakOff acc
    | .after, c :: rest =>
      if c == ',' then
        match isMap with
        | true :: _ => eventsFrom fuel .key isMap rest acc
        | false :: _ => eventsFrom fuel .value isMap rest acc
        | [] => breakOff acc
      else if c == '}' then close true rest
      else if c == ']' then close false rest
      else breakOff acc
    | .firstItem, ']' :: rest => close false rest
    | .firstKey, '}' :: rest => close true rest
    | .firstKey, cs | .key, cs =>
      match cs with
      | '"' :: _ =>
        match scalar? cs with
        | some (s, rest) =>
          match rest.dropWhile isSpace with
          | ':' :: rest => eventsFrom fuel .value isMap rest (.scalar none s :: acc)
          | _ => breakOff (.scalar none s :: acc)
        | none => breakOff acc
      | _ => breakOff acc
    | _, '{' :: rest =>
      eventsFrom fuel .firstKey (true :: isMap) rest (.openMap none false :: acc)
    | _, '[' :: rest =>
      eventsFrom fuel .firstItem (false :: isMap) rest (.openSeq none false :: acc)
    | _, cs =>
      match scalar? cs with
      | some (s, rest) => eventsFrom fuel .after isMap rest (.scalar none s :: acc)
      | none => breakOff acc

def events (text : String) : List Event :=
  let cs := text.toList
  eventsFrom (cs.length + 2) .value [] cs []

def readTree (text : String) : Tree := .ofEvents (events text)

def parse? (text : String) : Option Json :=
  let t := readTree text
  if t.complete then t.root.toJson else none

end Json
end SchemaGraph
