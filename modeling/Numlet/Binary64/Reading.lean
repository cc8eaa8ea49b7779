import Numlet.Binary64.Basic

/-!
Numbers read from text: a sign, digits around a point, and an exponent of ten. The result is the number
nearest to the value of the text.
-/
namespace Numlet.Binary64

/-- The value of a run of digits. -/
def digitsValue (ds : List Char) : Nat := ds.foldl (fun n d => 10 * n + (d.toNat - 48)) 0

/-- The value of a whole text of digits, at least one. -/
def digits? (cs : List Char) : Option Nat :=
  if cs.isEmpty || cs.any (fun c => !c.isDigit) then none else some (digitsValue cs)

/-- Splits off a sign; `true` stands for minus. -/
def splitSign : List Char → Bool × List Char
  | '-' :: cs => (true, cs)
  | '+' :: cs => (false, cs)
  | cs => (false, cs)

/-- A signed whole number. -/
def integer? (cs : List Char) : Option Int :=
  let (negative, rest) := splitSign cs
  (digits? rest).map fun n => if negative then -(n : Int) else n

/-- The number nearest to `digits * 10 ^ exponent`. Far outside the range of the format the exponent
alone decides, so powers of ten stay small. -/
def ofDecimal (negative : Bool) (digits : Nat) (exponent : Int) : Binary64 :=
  let length : Int := (Nat.toDigits 10 digits).length
  if digits = 0 || length + exponent < -400 then ofRatio negative 0 1
  else if 400 < length + exponent then ofRatio negative (Nat.pow 10 400) 1
  else match exponent with
    | .ofNat e => ofRatio negative (digits * Nat.pow 10 e) 1
    | .negSucc e => ofRatio negative digits (Nat.pow 10 (e + 1))

/-- The exponent at the end of a number: nothing, or a letter `e` and a signed whole number. -/
def exponent? : List Char → Option Int
  | [] => some 0
  | c :: cs => if c == 'e' || c == 'E' then integer? cs else none

/-- A number with a point. Digits may be missing on one side of it. -/
def ofText? (cs : List Char) : Option Binary64 :=
  let (negative, unsigned) := splitSign cs
  let whole := unsigned.takeWhile Char.isDigit
  match unsigned.dropWhile Char.isDigit with
  | '.' :: rest =>
    let fraction := rest.takeWhile Char.isDigit
    if whole.isEmpty && fraction.isEmpty then none
    else (exponent? (rest.dropWhile Char.isDigit)).map fun e =>
      ofDecimal negative (digitsValue (whole ++ fraction)) (e - fraction.length)
  | _ => none

end Numlet.Binary64
