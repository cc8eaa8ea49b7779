/-!
Double-precision numbers as their 64 bits. A finite number is a whole count of units of `2 ^ -1074`;
`ofRatio` gives the number nearest to a quotient.
-/
namespace Numlet

structure Binary64 where
  bits : UInt64
deriving DecidableEq, Repr, Inhabited

namespace Binary64

def negative (x : Binary64) : Bool := x.bits.toNat / Nat.pow 2 63 == 1

def exponentField (x : Binary64) : Nat := x.bits.toNat / Nat.pow 2 52 % Nat.pow 2 11

def fractionField (x : Binary64) : Nat := x.bits.toNat % Nat.pow 2 52

def isNaN (x : Binary64) : Bool := x.exponentField == 2047 && x.fractionField != 0

def isInfinite (x : Binary64) : Bool := x.exponentField == 2047 && x.fractionField == 0

/-- A finite magnitude is `significand * 2 ^ shift` units. -/
def significand (x : Binary64) : Nat :=
  if x.exponentField = 0 then x.fractionField else Nat.pow 2 52 + x.fractionField

def shift (x : Binary64) : Nat := x.exponentField - 1

/-- How many units of `2 ^ -1074` the magnitude has. -/
def units (x : Binary64) : Nat := x.significand * Nat.pow 2 x.shift

/-- The quotient rounded to a whole number; a half goes to the even neighbour. -/
def nearestQuotient (num den : Nat) : Nat :=
  let floor := num / den
  let twice := 2 * (num % den)
  if twice < den then floor
  else if den < twice then floor + 1
  else if floor % 2 = 0 then floor else floor + 1

/-- The bits of the infinite magnitude, above those of every finite one. -/
def infiniteBits : Nat := 2047 * Nat.pow 2 52

/-- The number nearest to `num / den`, infinite when that lies past the largest one. The bits of
magnitudes count them in order, so a significand that rounds up to `2 ^ 53` needs no further step. -/
def ofRatio (negative : Bool) (num den : Nat) : Binary64 :=
  let scaled := num * Nat.pow 2 1074
  let shift := (scaled / den).log2 - 52
  let magnitude := shift * Nat.pow 2 52 + nearestQuotient scaled (den * Nat.pow 2 shift)
  ⟨UInt64.ofNat (min magnitude infiniteBits + if negative then Nat.pow 2 63 else 0)⟩

/-- The number nearest to a whole number. -/
def ofInt (n : Int) : Binary64 := ofRatio (n < 0) n.natAbs 1

/-- The whole part, kept within 64 bits with a sign; zero when there is no number. -/
def truncate (x : Binary64) : Int :=
  if x.isNaN then 0
  else
    let whole : Nat := x.units / Nat.pow 2 1074
    if x.negative then max (-(whole : Int)) (-9223372036854775808)
    else min (whole : Int) 9223372036854775807

end Binary64
end Numlet
