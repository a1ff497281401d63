/-! # Numbers of binary64

Finite numbers of the format binary64 without their sign, the number nearest to a ratio, and the
shortest decimal that reads back. All arithmetic is exact. -/

namespace SchemaGraph

/-- The number `mantissa * 2 ^ exponent`. Unless the exponent is the least one, -1074, or the
number is zero, the mantissa has 53 bits. -/
structure Binary64 where
  mantissa : Nat
  exponent : Int
deriving Repr, DecidableEq, Inhabited

namespace Binary64

def zero : Binary64 := ⟨0, -1074⟩

/-- The quotient to the nearest integer; a half goes to the even neighbour. -/
def roundDiv (num den : Nat) : Nat :=
  let q := num / den
  let r := num % den
  if 2 * r > den || (2 * r == den && q % 2 == 1) then q + 1 else q

/-- Numerator and denominator of `num / den / 2 ^ e`. -/
def scale (num den : Nat) (e : Int) : Nat × Nat :=
  if 0 ≤ e then (num, den * Nat.pow 2 e.toNat) else (num * Nat.pow 2 (-e).toNat, den)

/-- The number nearest to `num / den`, ties to even; none if it is too large. -/
def ofRatio (num den : Nat) : Option Binary64 :=
  if num == 0 then some zero
  else
    let e : Int := (num.log2 : Int) - (den.log2 : Int) - 52
    let (n, d) := scale num den e
    let e := max (if n / d < Nat.pow 2 52 then e - 1 else e) (-1074)
    let (n, d) := scale num den e
    let m := roundDiv n d
    let x : Binary64 := if m == Nat.pow 2 53 then ⟨Nat.pow 2 52, e + 1⟩ else ⟨m, e⟩
    if x.exponent > 971 then none else some x

def ratio (x : Binary64) : Nat × Nat :=
  if 0 ≤ x.exponent then (x.mantissa * Nat.pow 2 x.exponent.toNat, 1)
  else (x.mantissa, Nat.pow 2 (-x.exponent).toNat)

def mul (x y : Binary64) : Option Binary64 :=
  let (a, b) := x.ratio
  let (c, d) := y.ratio
  ofRatio (a * c) (b * d)

def div (x y : Binary64) : Option Binary64 :=
  let (a, b) := x.ratio
  let (c, d) := y.ratio
  ofRatio (a * d) (b * c)

/-- The number nearest to `digits * 10 ^ exponent`. -/
def ofDecimal (digits : Nat) (exponent : Int) : Option Binary64 :=
  let size : Int := (Nat.toDigits 10 digits).length
  if digits == 0 || size + exponent < -330 then some zero
  else if size + exponent > 330 then none
  else if 0 ≤ exponent then ofRatio (digits * Nat.pow 10 exponent.toNat) 1
  else ofRatio digits (Nat.pow 10 (-exponent).toNat)

/-! ## The shortest decimal -/

/-- The ends of the interval of reals that round to the number, in quarters of its last place;
the number itself is `4 * mantissa`. -/
def ends (x : Binary64) : Nat × Nat :=
  let low := if x.mantissa == Nat.pow 2 52 && x.exponent > -1074 then 1 else 2
  (4 * x.mantissa - low, 4 * x.mantissa + 2)

/-- The point `d * 10 ^ k` lies in that interval, whose ends count iff the mantissa is even. -/
def reads (x : Binary64) (d : Nat) (k : Int) : Bool :=
  let (num, den) := if 0 ≤ k then (d * Nat.pow 10 k.toNat, 1) else (d, Nat.pow 10 (-k).toNat)
  let (n, q) := scale num den (x.exponent - 2)
  let (low, high) := x.ends
  if x.mantissa % 2 == 0 then low * q ≤ n && n ≤ high * q else low * q < n && n < high * q

/-- The exponent of the leading decimal digit of a ratio above zero. -/
def leadingExponent (num den : Nat) : Int :=
  let t : Int := (Nat.toDigits 10 num).length - (Nat.toDigits 10 den).length
  let reaches : Bool :=
    if 0 ≤ t then den * Nat.pow 10 t.toNat ≤ num else den ≤ num * Nat.pow 10 (-t).toNat
  if reaches then t else t - 1

/-- Among the decimals of `count` digits the nearest that reads back, if one does. -/
def nearestOf (x : Binary64) (count : Nat) : Option (Nat × Int) :=
  let (num, den) := x.ratio
  let k : Int := leadingExponent num den + 1 - count
  let (n, q) :=
    if 0 ≤ k then (num, den * Nat.pow 10 k.toNat) else (num * Nat.pow 10 (-k).toNat, den)
  let d := n / q
  match x.reads d k, x.reads (d + 1) k with
  | false, false => none
  | true, false => some (d, k)
  | false, true => some (d + 1, k)
  | true, true => some (roundDiv n q, k)

/-- Drops trailing zeros of `d * 10 ^ k`. -/
def strip : Nat → Nat → Int → Nat × Int
  | 0, d, k => (d, k)
  | fuel + 1, d, k => if d % 10 == 0 && d != 0 then strip fuel (d / 10) (k + 1) else (d, k)

/-- The shortest decimal that reads back, the nearest of those: its digits and the exponent of
the last one. -/
def shortest (x : Binary64) : Nat × Int :=
  if x.mantissa == 0 then (0, 0)
  else
    match (List.range 17).findSome? fun i => x.nearestOf (i + 1) with
    | some (d, k) => strip 17 d k
    | none => (0, 0)

/-! ## Text -/

/-- Digits with a point behind the first `point` of them, zeros filled in on either side; at
least one digit stands behind the point. -/
def positional (digits : List Char) (point : Int) : List Char :=
  if point ≤ 0 then '0' :: '.' :: List.replicate (-point).toNat '0' ++ digits
  else if digits.length ≤ point.toNat then
    digits ++ List.replicate (point.toNat - digits.length) '0' ++ ['.', '0']
  else digits.take point.toNat ++ '.' :: digits.drop point.toNat

def plainText (x : Binary64) : List Char :=
  let (d, k) := x.shortest
  let digits := Nat.toDigits 10 d
  if d == 0 then ['0', '.', '0'] else positional digits (digits.length + k)

/-- The shortest decimal, with an exponent below `1e-5` and from `1e16` on. The exponent has a sign
and two digits at least. -/
def scientificText (x : Binary64) : List Char :=
  let (d, k) := x.shortest
  let digits := Nat.toDigits 10 d
  let point : Int := digits.length + k
  if d == 0 then ['0', '.', '0']
  else if -5 < point && point ≤ 16 then positional digits point
  else
    let fraction := if digits.length == 1 then [] else '.' :: digits.drop 1
    let e := point - 1
    let mark := if 0 ≤ e then ['e', '+'] else ['e', '-']
    let lead := if e.natAbs < 10 then ['0'] else []
    digits.take 1 ++ fraction ++ mark ++ lead ++ Nat.toDigits 10 e.natAbs

end Binary64
end SchemaGraph
