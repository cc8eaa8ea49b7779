/-!
The four number types, in widening order. Two values meet at the wider of their types.
-/
namespace Numlet

inductive NumType
  | i32 | i64 | f32 | f64
deriving DecidableEq, Repr, Inhabited

namespace NumType

def all : List NumType := [i32, i64, f32, f64]

/-- The place in the widening order. -/
def rank : NumType → Nat
  | i32 => 0
  | i64 => 1
  | f32 => 2
  | f64 => 3

def isFloat : NumType → Bool
  | f32 | f64 => true
  | i32 | i64 => false

def isInteger (t : NumType) : Bool := !t.isFloat

def name : NumType → String
  | i32 => "i32"
  | i64 => "i64"
  | f32 => "f32"
  | f64 => "f64"

def ofName? (name : String) : Option NumType := all.find? (·.name == name)

/-- The smallest type with a sign that holds a whole number. -/
def forInteger (n : Int) : NumType := if -2147483648 ≤ n ∧ n ≤ 2147483647 then i32 else i64

/-- Fractions are `f32` unless `f64` is asked for. -/
def forFraction (hint : Option NumType) : NumType := if hint = some f64 then f64 else f32

/-- The wider of two types. -/
def join (a b : NumType) : NumType := if a.rank < b.rank then b else a

/-- The wider of two types, where a missing one counts as `i32`. -/
def joinKnown (a b : Option NumType) : NumType := (a.getD i32).join (b.getD i32)

/-- The type of a target after a value is stored into it. A fixed target takes only what it can hold
without widening. -/
def assign? (declared value : NumType) (fixed : Bool) : Option NumType :=
  let widened := declared.join value
  if fixed && widened != declared then none else some widened

end NumType
end Numlet
