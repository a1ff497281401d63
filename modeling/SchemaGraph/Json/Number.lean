import SchemaGraph.Decimal.Binary64
import SchemaGraph.Data.Node

/-! # JSON numbers

The grammar of JSON numbers. Integers that fit 64 bits stay exact; any other number is taken in
binary64, from at most as many leading digits as fit 64 bits and one power of ten. -/

namespace SchemaGraph
namespace Json

structure Numeral where
  negative : Bool
  whole : List Char
  fraction : Option (List Char)
  exponent : Option (Bool × List Char)
deriving Repr, DecidableEq

namespace Numeral

def digits (cs : List Char) : List Char × List Char :=
  (cs.takeWhile Char.isDigit, cs.dropWhile Char.isDigit)

def readExponent : List Char → Option (Option (Bool × List Char) × List Char)
  | c :: cs =>
    if c == 'e' || c == 'E' then
      let (negative, cs) := match cs with
        | '-' :: cs => (true, cs)
        | '+' :: cs => (false, cs)
        | cs => (false, cs)
      let (ds, rest) := digits cs
      if ds.isEmpty then none else some (some (negative, ds), rest)
    else some (none, c :: cs)
  | [] => some (none, [])

def readFraction : List Char → Option (Option (List Char) × List Char)
  | '.' :: cs =>
    let (ds, rest) := digits cs
    if ds.isEmpty then none else some (some ds, rest)
  | cs => some (none, cs)

/-- Reads a numeral off the front. A whole part of several digits does not start with zero. -/
def read (cs : List Char) : Option (Numeral × List Char) := do
  let (negative, cs) := match cs with
    | '-' :: cs => (true, cs)
    | cs => (false, cs)
  let (whole, rest) := digits cs
  if whole.isEmpty || (whole.head? == some '0' && whole.length > 1) then none
  let (fraction, rest) ← readFraction rest
  let (exponent, rest) ← readExponent rest
  return (⟨negative, whole, fraction, exponent⟩, rest)

/-- Takes in digits while the number fits 64 bits: the number and the digits left. -/
def take64 : Nat → List Char → Nat × List Char
  | n, [] => (n, [])
  | n, c :: cs =>
    let m := n * 10 + (c.toNat - '0'.toNat)
    if m < Nat.pow 2 64 then take64 m cs else (n, c :: cs)

def natOf (ds : List Char) : Nat := ds.foldl (fun n c => n * 10 + (c.toNat - '0'.toNat)) 0

/-- The number `n * 10 ^ e` by one multiplication or division; none if it is too large. Before
a division by more than `10 ^ 308`, that much is divided off. -/
def scaled : Nat → Binary64 → Int → Option Binary64
  | 0, _, _ => some .zero
  | fuel + 1, x, e =>
    if x.mantissa == 0 then some x
    else if e > 308 then none
    else if e ≥ 0 then (Binary64.ofDecimal 1 e).bind x.mul
    else if e ≥ -308 then (Binary64.ofDecimal 1 (-e)).bind x.div
    else ((Binary64.ofDecimal 1 308).bind x.div).bind fun y => scaled fuel y (e + 308)

def binary64 (n : Numeral) : Option Binary64 :=
  let (w, dropped) := take64 0 n.whole
  let (m, left) := match n.fraction with
    | some ds => take64 w ds
    | none => (w, [])
  let fraction : Int := match n.fraction with
    | some ds => ds.length - left.length
    | none => 0
  let e : Int := dropped.length - fraction + match n.exponent with
    | some (negative, ds) => if negative then -(natOf ds : Int) else natOf ds
    | none => 0
  (Binary64.ofRatio m 1).bind fun x => scaled 8 x e

def floatAtom (negative : Bool) (x : Binary64) : Atom :=
  .float (.ofList ((if negative then ['-'] else []) ++ x.scientificText))

/-- What the numeral stands for. Minus zero is no integer. -/
def atom (n : Numeral) : Except ReadError Atom :=
  let m := natOf n.whole
  let isInteger := n.fraction.isNone && n.exponent.isNone
  if isInteger && !n.negative && m < Nat.pow 2 64 then .ok (.int m)
  else if isInteger && n.negative && 0 < m && m ≤ Nat.pow 2 63 then .ok (.int (-m))
  else
    match n.binary64 with
    | some x => .ok (floatAtom n.negative x)
    | none => .error .broken

end Numeral
end Json
end SchemaGraph
