import Numlet.Proofs.Code.Layout

/-!
The places where code turns a value into one of another type, in the order of the code: those that the
source writes, and those that come with a store, a load, an operand, an argument or a returned value.
-/
namespace Numlet

theorem Conversion.between?_eq_some_iff {source target : NumType} {c : Conversion} :
    Conversion.between? source target = some c ↔ source = c.source ∧ target = c.target := by
  cases source <;> cases target <;> cases c <;> decide

structure Coercion where
  source : NumType
  target : NumType
  span : Span
  /-- Whether the source asks for it. -/
  written : Bool

namespace Coercion

def implicit (source target : NumType) (span : Span) : Coercion := ⟨source, target, span, false⟩

/-- A fraction does not become a whole number. -/
def isRefused (k : Coercion) : Bool := k.source.isFloat && k.target.isInteger

def refusal? (k : Coercion) : Option Diagnostic :=
  if k.isRefused then some ⟨.unsupportedConversion k.source k.target, k.span.start⟩ else none

theorem refusal?_eq_none_of_rank_le {k : Coercion} (h : k.source.rank ≤ k.target.rank) :
    k.refusal? = none := by
  obtain ⟨source, target, span, written⟩ := k
  revert h
  cases source <;> cases target <;> simp [refusal?, isRefused, NumType.rank, NumType.isFloat,
    NumType.isInteger]

/-- Between different types there is a conversion for what is not refused. -/
theorem exists_conversion {k : Coercion} (h : k.refusal? = none) (hne : k.source ≠ k.target) :
    ∃ c : Conversion, k.source = c.source ∧ k.target = c.target := by
  obtain ⟨source, target, span, written⟩ := k
  simp only [← Conversion.between?_eq_some_iff]
  revert h hne
  cases source <;> cases target <;> simp [refusal?, isRefused, NumType.isFloat, NumType.isInteger,
    Conversion.between?, Conversion.all, Conversion.source, Conversion.target]

/-- The first refusal. -/
def firstRefusal (ks : List Coercion) : Option Diagnostic := ks.findSome? refusal?

@[simp] theorem firstRefusal_nil : firstRefusal [] = none := rfl

@[simp] theorem firstRefusal_cons (k : Coercion) (ks : List Coercion) :
    firstRefusal (k :: ks) = k.refusal?.or (firstRefusal ks) := by
  unfold firstRefusal
  rw [List.findSome?_cons]
  cases k.refusal? <;> rfl

@[simp] theorem firstRefusal_append (ks ls : List Coercion) :
    firstRefusal (ks ++ ls) = (firstRefusal ks).or (firstRefusal ls) :=
  List.findSome?_append

end Coercion

namespace Typed.Context
open Coercion (implicit)

variable (c : Context)

mutual

def coercions : Expr → List Coercion
  | .literal .. => []
  | .var slot t span => [implicit (c.slotType slot) t span]
  | .binary op left right operandType _ _ =>
    if op.isLogical then coercions left ++ coercions right
    else
      coercions left ++ implicit left.type operandType left.span :: coercions right ++
        [implicit right.type operandType right.span]
  | .unary _ operand _ _ => coercions operand
  | .update _ slot t span =>
    [implicit (c.slotType slot) t span, implicit (c.slotType slot) t span,
      implicit t (c.slotType slot) span]
  | .assign slot value t span =>
    coercions value ++
      [implicit value.type (c.slotType slot) span, implicit (c.slotType slot) t span]
  | .convert operand source target _ span => coercions operand ++ [⟨source, target, span, true⟩]
  | .call _ arguments parameterTypes _ _ _ => argumentCoercions arguments parameterTypes

def argumentCoercions : List Expr → List NumType → List Coercion
  | argument :: arguments, parameter :: parameters =>
    coercions argument ++ implicit argument.type parameter argument.span ::
      argumentCoercions arguments parameters
  | _, _ => []

end

def coercions? (e : Option Expr) : List Coercion := (e.map c.coercions).getD []

mutual

def stmtCoercions : Stmt → List Coercion
  | .declare slot none t span => [implicit t (c.slotType slot) span]
  | .declare slot (some value) _ span | .assign slot value span =>
    c.coercions value ++ [implicit value.type (c.slotType slot) span]
  | .branch condition yes no _ => c.coercions condition ++ stmtCoercions yes ++ stmtCoercions? no
  | .loop start condition body step _ =>
    stmtCoercions? start ++ c.coercions? condition ++ stmtCoercions body ++ stmtCoercions? step
  | .breakLoop _ | .continueLoop _ | .returnValue none _ => []
  | .returnValue (some value) span =>
    c.coercions value ++ (c.result.map fun r => implicit value.type r span).toList
  | .print value _ | .expression value => c.coercions value
  | .block body _ => stmtsCoercions body
  | .call _ arguments parameterTypes _ => c.argumentCoercions arguments parameterTypes

def stmtCoercions? : Option Stmt → List Coercion
  | none => []
  | some s => stmtCoercions s

def stmtsCoercions : List Stmt → List Coercion
  | [] => []
  | s :: ss => stmtCoercions s ++ stmtsCoercions ss

end

end Typed.Context

end Numlet
