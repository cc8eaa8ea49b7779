import Numlet.Code.Instr

/-!
Values and what can be done with them. Whole numbers are counted modulo a power of two. Fractions,
conversions and the functions that are called can be anything.
-/
namespace Numlet

inductive Value (F D : Type)
  | i32 (bits : BitVec 32)
  | i64 (bits : BitVec 64)
  | f32 (x : F)
  | f64 (x : D)
deriving DecidableEq

/-- The fractions of one width. -/
structure Fractions (α : Type) where
  const : Literal → α
  arith : NumericOp → α → α → α
  compare : NumericOp → α → α → Bool

/-- What a call does in a world of type `W`: it gives a value or traps. The value of a function without a
result is not used. -/
abbrev Callable (F D W : Type) := List (Value F D) → W → Except W (Value F D × W)

/-- Everything that a program leaves open. -/
structure Interpretation (F D W : Type) where
  f32 : Fractions F
  f64 : Fractions D
  convert : NumType → NumType → Value F D → Option (Value F D)
  host : Host → Callable F D W
  user : String → Callable F D W

namespace Value

variable {F D : Type}

def ofBool (b : Bool) : Value F D := .i32 (if b then 1 else 0)

/-- An operation on whole numbers. A division by zero has no result, nor has one that overflows. -/
def whole {n : Nat} (ofBits : BitVec n → Value F D) (op : NumericOp) (a b : BitVec n) :
    Option (Value F D) :=
  match op with
  | .add => some (ofBits (a + b))
  | .sub => some (ofBits (a - b))
  | .mul => some (ofBits (a * b))
  | .div => if b = 0 ∨ a = BitVec.intMin n ∧ b = -1 then none else some (ofBits (a.sdiv b))
  | .rem => if b = 0 then none else some (ofBits (a.srem b))
  | .eq => some (ofBool (a == b))
  | .ne => some (ofBool (a != b))
  | .lt => some (ofBool (a.slt b))
  | .le => some (ofBool (a.sle b))
  | .gt => some (ofBool (b.slt a))
  | .ge => some (ofBool (b.sle a))

def fraction {α : Type} (o : Fractions α) (ofFraction : α → Value F D) (op : NumericOp) (a b : α) :
    Value F D :=
  match op with
  | .add | .sub | .mul | .div | .rem => ofFraction (o.arith op a b)
  | .eq | .ne | .lt | .le | .gt | .ge => ofBool (o.compare op a b)

/-- Whether a whole number of the given type is zero. -/
def eqz : NumType → Value F D → Option (Value F D)
  | .i32, .i32 a => some (ofBool (a == 0))
  | .i64, .i64 a => some (ofBool (a == 0))
  | _, _ => none

end Value

namespace Interpretation

variable {F D W : Type} (I : Interpretation F D W)

def const : NumType → Literal → Value F D
  | .i32, .int n => .i32 (BitVec.ofInt 32 n)
  | .i64, .int n => .i64 (BitVec.ofInt 64 n)
  | .i32, .fraction x => .i32 (BitVec.ofInt 32 x.truncate)
  | .i64, .fraction x => .i64 (BitVec.ofInt 64 x.truncate)
  | .f32, l => .f32 (I.f32.const l)
  | .f64, l => .f64 (I.f64.const l)

/-- An operation on two values of the given type. -/
def numeric (op : NumericOp) : NumType → Value F D → Value F D → Option (Value F D)
  | .i32, .i32 a, .i32 b => Value.whole .i32 op a b
  | .i64, .i64 a, .i64 b => Value.whole .i64 op a b
  | .f32, .f32 a, .f32 b => some (Value.fraction I.f32 .f32 op a b)
  | .f64, .f64 a, .f64 b => some (Value.fraction I.f64 .f64 op a b)
  | _, _, _ => none

/-- An operator between values of the given type. The logical ones work on conditions and have no meaning
here, nor has the remainder of fractions. -/
def binary (op : BinaryOp) (t : NumType) (a b : Value F D) : Option (Value F D) :=
  match op with
  | .add => I.numeric .add t a b
  | .subtract => I.numeric .sub t a b
  | .multiply => I.numeric .mul t a b
  | .divide => I.numeric .div t a b
  | .remainder => if t.isFloat then none else I.numeric .rem t a b
  | .equals => I.numeric .eq t a b
  | .notEquals => I.numeric .ne t a b
  | .less => I.numeric .lt t a b
  | .lessEquals => I.numeric .le t a b
  | .greater => I.numeric .gt t a b
  | .greaterEquals => I.numeric .ge t a b
  | .and | .or => none

/-- Whether a value of the given type is other than zero. -/
def isTrue : NumType → Value F D → Option Bool
  | .i32, .i32 a => some (a != 0)
  | .i64, .i64 a => some (a != 0)
  | .f32, .f32 a => some (I.f32.compare .ne a (I.f32.const (.int 0)))
  | .f64, .f64 a => some (I.f64.compare .ne a (I.f64.const (.int 0)))
  | _, _ => none

/-- Negation counts down from zero; a fraction is multiplied by minus one. -/
def unary : UnaryOp → NumType → Value F D → Option (Value F D)
  | .plus, _, v => some v
  | .negate, .i32, .i32 a => some (.i32 (-a))
  | .negate, .i64, .i64 a => some (.i64 (-a))
  | .negate, .f32, .f32 a => some (.f32 (I.f32.arith .mul a (I.f32.const (.int (-1)))))
  | .negate, .f64, .f64 a => some (.f64 (I.f64.arith .mul a (I.f64.const (.int (-1)))))
  | .not, .i32, .i32 a => some (.ofBool (a == 0))
  | .not, .i64, .i64 a => some (.ofBool (a == 0))
  | .not, .f32, .f32 a => some (.ofBool (I.f32.compare .eq a (I.f32.const (.int 0))))
  | .not, .f64, .f64 a => some (.ofBool (I.f64.compare .eq a (I.f64.const (.int 0))))
  | _, _, _ => none

/-- One more or one less. -/
def step (op : UpdateOp) (t : NumType) (v : Value F D) : Option (Value F D) :=
  match op with
  | .increment => I.binary .add t v (I.const t (.int 1))
  | .decrement => I.binary .subtract t v (I.const t (.int 1))

/-- A value of one type as one of another. -/
def coerce (source target : NumType) (v : Value F D) : Option (Value F D) :=
  if source = target then some v else I.convert source target v

/-- What a local holds before anything is stored there. -/
def zero (t : NumType) : Value F D := I.const t (.int 0)

/-- A call by the name in the program. -/
def call (callee : String) : Callable F D W :=
  match Host.find? callee with
  | some host => I.host host
  | none => I.user callee

theorem numeric_ne_zero (t : NumType) (v : Value F D) :
    I.numeric .ne t v (I.const t (.int 0)) = (I.isTrue t v).map .ofBool := by
  cases t <;> cases v <;> rfl

theorem numeric_eq_zero (t : NumType) (v : Value F D) :
    I.numeric .eq t v (I.const t (.int 0)) = I.unary .not t v := by
  cases t <;> cases v <;> rfl

theorem eqz_eq_not {t : NumType} (h : t.isInteger = true) (v : Value F D) :
    Value.eqz t v = I.unary .not t v := by
  cases t with
  | i32 | i64 => cases v <;> rfl
  | f32 | f64 => cases h

/-- Negation is a product with minus one at every type. -/
theorem numeric_mul_neg_one (t : NumType) (v : Value F D) :
    I.numeric .mul t v (I.const t (.int (-1))) = I.unary .negate t v := by
  have hneg : ∀ {n : Nat} (a : BitVec n), a * BitVec.ofInt n (-1) = -a := by
    intro n a
    rw [BitVec.ofInt_neg, BitVec.mul_neg, BitVec.ofInt_ofNat, BitVec.mul_one]
  cases t with
  | i32 | i64 => cases v <;> simp only [numeric, const, unary, Value.whole, hneg]
  | f32 | f64 => cases v <;> rfl

theorem binary_of_numeric {op : BinaryOp} {t : NumType} {numeric : NumericOp}
    (h : NumericOp.ofBinary? op t = some numeric) (a b : Value F D) :
    I.binary op t a b = I.numeric numeric t a b := by
  cases op with
  | add | subtract | multiply | divide | equals | notEquals | less | lessEquals | greater
  | greaterEquals =>
    cases h
    rfl
  | remainder =>
    cases t with
    | i32 | i64 =>
      cases h
      rfl
    | f32 | f64 => cases h
  | and | or => cases h

end Interpretation

end Numlet
