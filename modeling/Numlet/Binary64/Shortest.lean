import Numlet.Binary64.Basic

/-!
The fewest decimal digits that read back as a number. All reals nearer to the number than to its
neighbours read back as it; among the decimals with the least count of digits in that interval the
nearest one is taken, and of two equally near ones the greater.
-/
namespace Numlet.Binary64

/-- The value `digits * 10 ^ exponent`. -/
structure Decimal where
  digits : Nat
  exponent : Int
deriving DecidableEq, Repr, Inhabited

/-- The magnitude is `quarters / denominator`, four times the significand over a power of two, so that
half the way to a neighbour is a whole number of quarters. -/
def scale (x : Binary64) : Nat := Nat.pow 2 (x.shift - 1074)

def quarters (x : Binary64) : Nat := 4 * x.significand * x.scale

def denominator (x : Binary64) : Nat := 4 * Nat.pow 2 (1074 - x.shift)

/-- Half the way to the next number below. Just above a power of two the numbers below are denser. -/
def quartersBelow (x : Binary64) : Nat :=
  if x.fractionField = 0 ∧ 1 < x.exponentField then x.scale else 2 * x.scale

/-- Half the way to the next number above. -/
def quartersAbove (x : Binary64) : Nat := 2 * x.scale

def digitCount (n : Nat) : Nat := (Nat.toDigits 10 n).length

/-- The power of ten just above the number: `10 ^ (places - 1) ≤ x < 10 ^ places`. -/
def places (x : Binary64) : Int :=
  if x.denominator ≤ x.quarters then digitCount (x.quarters / x.denominator)
  else 1 - (digitCount ((x.denominator - 1) / x.quarters) : Int)

/-- The multiples of `10 ^ e` are compared with the number after both are made whole: a multiple `d` by
`d * step e`, the number by `quarters * fine e`. -/
def fine (e : Int) : Nat := Nat.pow 10 (-e).toNat

def step (x : Binary64) (e : Int) : Nat := Nat.pow 10 e.toNat * x.denominator

/-- Whether `d * 10 ^ e` reads back as `x`: a half way goes to an even significand. -/
def readsBack (x : Binary64) (e : Int) (d : Nat) : Bool :=
  let value := x.quarters * fine e
  let low := x.quartersBelow * fine e
  let high := value + x.quartersAbove * fine e
  let p := d * x.step e
  if x.significand % 2 = 0 then value ≤ p + low && p ≤ high else value < p + low && p < high

/-- The greatest multiple of `10 ^ e` that is not above the number. -/
def floorOn (x : Binary64) (e : Int) : Nat := x.quarters * fine e / x.step e

/-- The nearer of the two neighbours of `x` among the multiples of `10 ^ e`. -/
def nearestOn (x : Binary64) (e : Int) : Nat :=
  let rest := x.quarters * fine e % x.step e
  x.floorOn e + if x.step e ≤ 2 * rest then 1 else 0

/-- The multiple of `10 ^ e` that reads back as `x`, if there is one. -/
def hitOn (x : Binary64) (e : Int) : Option Nat :=
  let floor := x.floorOn e
  match x.readsBack e floor, x.readsBack e (floor + 1) with
  | true, true => some (x.nearestOn e)
  | true, false => some floor
  | false, true => some (floor + 1)
  | false, false => none

/-- Tries the multiples of `10 ^ e`, then up to `more` finer ones; the last are taken as they are. -/
def shortestFrom (x : Binary64) (e : Int) : Nat → Decimal
  | 0 => ⟨x.nearestOn e, e⟩
  | more + 1 =>
    match x.hitOn e with
    | some d => ⟨d, e⟩
    | none => shortestFrom x (e - 1) more

/-- Seventeen digits always read back. -/
def shortest (x : Binary64) : Decimal :=
  if x.units = 0 then ⟨0, 0⟩ else shortestFrom x (x.places - 1) 16

/-- The whole part and the digits after the point, without zeros at their end. -/
def Decimal.split (d : Decimal) : Nat × List Char :=
  match d.exponent with
  | .ofNat e => (d.digits * Nat.pow 10 e, [])
  | .negSucc e =>
    let unit := Nat.pow 10 (e + 1)
    let digits := Nat.toDigits 10 (d.digits % unit)
    let padded := List.replicate (e + 1 - digits.length) '0' ++ digits
    (d.digits / unit, (padded.reverse.dropWhile (· == '0')).reverse)

/-- Digits are written out in full, with a point and at least one digit after it. -/
def Decimal.text (d : Decimal) : String :=
  let (whole, fraction) := d.split
  toString whole ++ "." ++ (if fraction.isEmpty then "0" else String.ofList fraction)

def text (x : Binary64) : String :=
  if x.isNaN then "nan"
  else (if x.negative then "-" else "") ++ (if x.isInfinite then "inf" else x.shortest.text)

end Numlet.Binary64
