import Numlet.Proofs.Tree.Strata
import Numlet.Tree.ReadStmt

/-!
Programs printed to lexemes. A part of an expression stands in parentheses exactly if it lies in a looser
stratum than its place asks for. Fractions are written by a function that is left open: all that matters is
that its texts are read back.
-/
namespace Numlet

namespace Lexeme

/-- A sign or a reserved word, with its text. -/
def sign (kind : Kind) : Lexeme :=
  ⟨kind, ((Pattern.signs.lookup kind).or ((Kind.reserved.find? (·.2 = kind)).map (·.1))).getD ""⟩

/-- A word, which is a name unless it is reserved. -/
def ofWord (word : String) : Lexeme := ⟨Kind.ofWord word, word⟩

end Lexeme

open Lexeme (sign ofWord)

def BinaryOp.kind : BinaryOp → Kind
  | .add => .plus
  | .subtract => .dash
  | .multiply => .star
  | .divide => .slash
  | .remainder => .percent
  | .equals => .equals
  | .notEquals => .notEquals
  | .less => .less
  | .lessEquals => .lessEquals
  | .greater => .greater
  | .greaterEquals => .greaterEquals
  | .and => .and
  | .or => .or

def UnaryOp.kind : UnaryOp → Kind
  | .plus => .plus
  | .negate => .dash
  | .not => .not

def UpdateOp.kind : UpdateOp → Kind
  | .increment => .plusPlus
  | .decrement => .minusMinus

/-- The stratum of an operator. -/
def BinaryOp.stratum : BinaryOp → Stratum
  | .and | .or => .logical
  | .equals | .notEquals | .less | .lessEquals | .greater | .greaterEquals => .relational
  | .add | .subtract => .additive
  | .multiply | .divide | .remainder => .multiplicative

/-- The stratum of the right operand of an operator. -/
def BinaryOp.rightStratum : BinaryOp → Stratum
  | .and | .or => .relational
  | .equals | .notEquals | .less | .lessEquals | .greater | .greaterEquals => .additive
  | .add | .subtract => .multiplicative
  | .multiply | .divide | .remainder => .conversion

/-- How many strata are looser. -/
def Stratum.depth : Stratum → Nat
  | expression => 0
  | logical => 1
  | relational => 2
  | additive => 3
  | multiplicative => 4
  | conversion => 5
  | unary => 6
  | applied => 7
  | atom => 8

/-- The tightest stratum that an expression lies in without parentheses. -/
def Expr.stratum : Expr → Stratum
  | .literal .. | .var .. => .atom
  | .update .. | .call .. => .applied
  | .unary .. => .unary
  | .convert .. => .conversion
  | .binary op .. => op.stratum
  | .assign .. => .expression

/-- The lexemes of an expression in a place for a stratum. -/
def Expr.within (σ : Stratum) (e : Expr) (ls : List Lexeme) : List Lexeme :=
  if σ.depth ≤ e.stratum.depth then ls else sign .openParen :: (ls ++ [sign .closeParen])

section Printing

variable (written : Binary64 → String)

def Literal.lexeme : Literal → Lexeme
  | .int n => ⟨.number, toString n⟩
  | .fraction x => ⟨.number, written x⟩

mutual

/-- The lexemes of an expression. -/
def Expr.printed : Expr → List Lexeme
  | .literal value _ => [value.lexeme written]
  | .var name _ => [ofWord name]
  | .binary op left right _ =>
    left.within op.stratum left.printed ++ sign op.kind :: right.within op.rightStratum right.printed
  | .unary op operand _ => sign op.kind :: operand.within .unary operand.printed
  | .update op target _ _ => [ofWord target, sign op.kind]
  | .assign target value _ =>
    target.within .logical target.printed ++ sign .assignment :: value.within .expression value.printed
  | .convert operand _ target _ =>
    operand.within .conversion operand.printed ++ [sign .asWord, ofWord target.name]
  | .call callee arguments _ =>
    ofWord callee :: sign .openParen :: (printedArguments arguments ++ [sign .closeParen])

/-- Expressions with commas between them. -/
def printedArguments : List Expr → List Lexeme
  | [] => []
  | [e] => e.printed
  | e :: es => e.printed ++ sign .comma :: printedArguments es

end

/-- A type after its mark, if there is one. -/
def printedType (mark : Kind) : Option NumType → List Lexeme
  | none => []
  | some type => [sign mark, ofWord type.name]

def printedParameters : List Parameter → List Lexeme
  | [] => []
  | [p] => ofWord p.name :: printedType .colon p.declared
  | p :: ps => ofWord p.name :: (printedType .colon p.declared ++ sign .comma :: printedParameters ps)

def printedExpr? (e : Option Expr) : List Lexeme := (e.map (·.printed written)).getD []

/-- The value of a declaration. -/
def printedValue (e : Option Expr) : List Lexeme :=
  (e.map fun e => sign .assignment :: e.printed written).getD []

mutual

/-- The lexemes of a statement. -/
def Stmt.printed : Stmt → List Lexeme
  | .function name parameters result body _ _ =>
    sign .fnWord :: ofWord name :: sign .openParen :: (printedParameters parameters ++
      sign .closeParen :: (printedType .arrow result ++
        sign .openCurly :: (printedStmts body ++ [sign .closeCurly])))
  | .declare name declared value _ =>
    sign .letWord :: ofWord name :: (printedType .colon declared ++
      (printedValue written value ++ [sign .semicolon]))
  | .assign target value span => (Expr.assign target value span).printed written ++ [sign .semicolon]
  | .branch condition yes no _ =>
    sign .ifWord :: (condition.printed written ++ (yes.printed ++ printedElse no))
  | .whileLoop condition body _ => sign .whileWord :: (condition.printed written ++ body.printed)
  | .forLoop start condition step body _ =>
    sign .forWord :: sign .openParen :: (printedStart start ++ (printedExpr? written condition ++
      sign .semicolon :: (printedExpr? written step ++ sign .closeParen :: body.printed)))
  | .breakLoop _ => [sign .breakWord, sign .semicolon]
  | .continueLoop _ => [sign .continueWord, sign .semicolon]
  | .returnValue value _ => sign .returnWord :: (printedExpr? written value ++ [sign .semicolon])
  | .print value _ => sign .printWord :: (value.printed written ++ [sign .semicolon])
  | .block body _ => sign .openCurly :: (printedStmts body ++ [sign .closeCurly])
  | .expression value _ => value.printed written ++ [sign .semicolon]
  | .call callee arguments span => (Expr.call callee arguments span).printed written ++ [sign .semicolon]

def printedElse : Option Stmt → List Lexeme
  | none => []
  | some s => sign .elseWord :: s.printed

/-- The first part of a loop's header, with its semicolon. -/
def printedStart : Option Stmt → List Lexeme
  | none => [sign .semicolon]
  | some s => s.printed

def printedStmts : List Stmt → List Lexeme
  | [] => []
  | s :: ss => s.printed ++ printedStmts ss

end

/-- A function as the statement that defines it. -/
def Function.stmt (f : Function) : Stmt :=
  .function f.name f.parameters f.result f.body f.bodySpan f.span

/-- The lexemes of a program: its functions and then its other statements. -/
def Program.printed (p : Program) : List Lexeme :=
  printedStmts written (p.functions.map Function.stmt ++ p.body)

/-- A literal whose text is read back. -/
def Literal.Printable : Literal → Prop
  | .int n => 0 ≤ n ∧ n ≤ 9223372036854775807
  | .fraction x => Reading.literal? (written x) = some (.fraction x)

/-- A word that is not reserved. -/
def IsName (word : String) : Prop := Kind.ofWord word = .identifier

instance (word : String) : Decidable (IsName word) := inferInstanceAs (Decidable (_ = _))

mutual

/-- The names of an expression are no reserved words, its literals are read back, and its conversions leave
the type that they start from to the checker. -/
def Expr.Printable : Expr → Prop
  | .literal value _ => value.Printable written
  | .var name _ => IsName name
  | .binary _ left right _ => left.Printable ∧ right.Printable
  | .unary _ operand _ => operand.Printable
  | .update _ target _ _ => IsName target
  | .assign target value _ => target.Printable ∧ value.Printable
  | .convert operand source _ _ => operand.Printable ∧ source = none
  | .call callee arguments _ => IsName callee ∧ PrintableExprs arguments

def PrintableExprs : List Expr → Prop
  | [] => True
  | e :: es => e.Printable ∧ PrintableExprs es

end

def PrintableExpr? (e : Option Expr) : Prop := ∀ x ∈ e, x.Printable written

end Printing

def Stmt.isBlock : Stmt → Bool
  | .block .. => true
  | _ => false

def Stmt.isBranch : Stmt → Bool
  | .branch .. => true
  | _ => false

/-- A statement that can begin the header of a loop. -/
def Stmt.isStart : Stmt → Bool
  | .declare .. | .assign .. | .expression .. | .call .. => true
  | _ => false

/-- An expression that leaves a value as a statement. -/
def Expr.isValue : Expr → Bool
  | .assign .. | .call .. => false
  | _ => true

section Printing

variable (written : Binary64 → String)

mutual

/-- The expressions of a statement can be printed, and what stands in a branch or in a loop is a block; a
second branch can also be another branching. -/
def Stmt.Printable : Stmt → Prop
  | .function name parameters _ body _ _ =>
    IsName name ∧ (∀ p ∈ parameters, IsName p.name) ∧ PrintableStmts body
  | .declare name _ value _ => IsName name ∧ PrintableExpr? written value
  | .assign target value _ => target.Printable written ∧ value.Printable written
  | .branch condition yes no _ =>
    condition.Printable written ∧ (yes.isBlock = true ∧ yes.Printable) ∧ PrintableElse no
  | .whileLoop condition body _ => condition.Printable written ∧ body.isBlock = true ∧ body.Printable
  | .forLoop start condition step body _ =>
    PrintableStart start ∧ PrintableExpr? written condition ∧ PrintableExpr? written step ∧
      body.isBlock = true ∧ body.Printable
  | .breakLoop _ | .continueLoop _ => True
  | .returnValue value _ => PrintableExpr? written value
  | .print value _ => value.Printable written
  | .block body _ => PrintableStmts body
  | .expression value _ => value.isValue = true ∧ value.Printable written
  | .call callee arguments _ => IsName callee ∧ PrintableExprs written arguments

def PrintableElse : Option Stmt → Prop
  | none => True
  | some s => (s.isBlock = true ∨ s.isBranch = true) ∧ s.Printable

def PrintableStart : Option Stmt → Prop
  | none => True
  | some s => s.isStart = true ∧ s.Printable

def PrintableStmts : List Stmt → Prop
  | [] => True
  | s :: ss => s.Printable ∧ PrintableStmts ss

end

/-- No function is defined among the top-level statements, which would make it one of the functions. -/
structure Program.Printable (p : Program) : Prop where
  functions : PrintableStmts written (p.functions.map Function.stmt)
  body : PrintableStmts written p.body
  noFunction : ∀ s ∈ p.body, s.function? = none

end Printing

namespace Derives

variable {σ τ : Stratum} {p : List Lexeme} {t : Expr}

/-- Tighter strata lie in looser ones. -/
theorem of_depth (h : Derives τ p t) (hle : σ.depth ≤ τ.depth) : Derives σ p t := by
  obtain ⟨n, hn⟩ := Nat.le.dest hle
  induction n generalizing σ with
  | zero =>
    have hsame : σ = τ := by
      revert hn
      cases σ <;> cases τ <;> simp [Stratum.depth]
    rw [hsame]
    exact h
  | succ n ih =>
    have hnext : ∃ σ', σ.tighter? = some σ' ∧ σ'.depth = σ.depth + 1 := by
      cases σ with
      | atom =>
        have hmax : τ.depth ≤ 8 := by cases τ <;> decide
        change 8 + (n + 1) = τ.depth at hn
        omega
      | expression | logical | relational | additive | multiplicative | conversion | unary | applied =>
        exact ⟨_, rfl, rfl⟩
    obtain ⟨σ', htighter, hdepth⟩ := hnext
    exact .tighter htighter (ih (by omega) (by omega))

/-- An expression that is printed for its own stratum is one in every place. -/
theorem within {e : Expr} (h : Derives e.stratum p t) (σ : Stratum) : Derives σ (e.within σ p) t := by
  unfold Expr.within
  split
  · next hle => exact h.of_depth hle
  · have hwhole : Derives .expression p t := h.of_depth (Nat.zero_le _)
    have hatom : Derives .atom (sign .openParen :: (p ++ [sign .closeParen])) t := .group rfl hwhole rfl
    refine hatom.of_depth ?_
    cases σ <;> decide

end Derives

theorem IsName.names {name : String} (h : IsName name) : Names [ofWord name] name := .word h

theorem BinaryOp.stratum?_kind (op : BinaryOp) : stratum? op.kind = some (op.stratum, op) := by
  cases op <;> rfl

theorem BinaryOp.tighter?_stratum (op : BinaryOp) : op.stratum.tighter? = some op.rightStratum := by
  cases op <;> rfl

theorem UnaryOp.ofKind?_kind (op : UnaryOp) : ofKind? op.kind = some op := by cases op <;> rfl

theorem UpdateOp.ofKind?_kind (op : UpdateOp) : ofKind? op.kind = some op := by cases op <;> rfl

theorem NumType.ofName?_name (type : NumType) : ofName? type.name = some type := by cases type <;> decide

theorem NumType.isName_name (type : NumType) : IsName type.name := by cases type <;> decide

theorem isDigit_of_mem_decimal {m : Nat} {d : Char} (h : d ∈ Nat.toDigits 10 m) : d.isDigit = true :=
  Nat.isDigit_of_mem_toDigits (by decide) (by decide) h

/-- The digits of a whole number have its value. -/
theorem Binary64.integer?_toDigits (m : Nat) : integer? (Nat.toDigits 10 m) = some (m : Int) := by
  have hsign : splitSign (Nat.toDigits 10 m) = (false, Nat.toDigits 10 m) := by
    unfold splitSign
    split
    · next heq => exact absurd (isDigit_of_mem_decimal (heq ▸ List.mem_cons_self)) (by decide)
    · next heq => exact absurd (isDigit_of_mem_decimal (heq ▸ List.mem_cons_self)) (by decide)
    · rfl
  have hvalue : digitsValue (Nat.toDigits 10 m) = m := Nat.ofDigitChars_toDigits (by decide) (by decide)
  have hdigits : digits? (Nat.toDigits 10 m) = some m := by
    have hall : (Nat.toDigits 10 m).any (fun c => !c.isDigit) = false := by
      rw [List.any_eq_false]
      intro d hd
      simp [isDigit_of_mem_decimal hd]
    have hne : (Nat.toDigits 10 m).isEmpty = false := by simp [Nat.toDigits_ne_nil]
    unfold digits?
    rw [hall, hne, hvalue]
    rfl
  unfold integer?
  rw [hsign]
  simp only [hdigits]
  rfl

/-- A whole number that is printed is read back. -/
theorem Reading.literal?_toString {n : Int} (h : 0 ≤ n) (hmax : n ≤ 9223372036854775807) :
    literal? (toString n) = some (.int n) := by
  obtain ⟨m, rfl⟩ := Int.eq_ofNat_of_zero_le h
  have htext : (toString (m : Int)).toList = Nat.toDigits 10 m := by
    rw [Int.toString_eq_repr]
    exact Nat.toList_repr
  have hpoint : (Nat.toDigits 10 m).contains '.' = false := by
    rw [List.contains_eq_mem, decide_eq_false_iff_not]
    intro hin
    exact absurd (isDigit_of_mem_decimal hin) (by decide)
  unfold literal?
  rw [htext, hpoint, Binary64.integer?_toDigits]
  have hrange : -9223372036854775808 ≤ (m : Int) ∧ (m : Int) ≤ 9223372036854775807 := ⟨by omega, hmax⟩
  exact if_pos hrange

section Printing

variable {written : Binary64 → String}

mutual

/-- What is printed derives the expression. -/
theorem Expr.printed_derives (e : Expr) (h : e.Printable written) :
    Derives e.stratum (e.printed written) e.unplaced := by
  match e with
  | .literal (.int n) _ => exact .number rfl (Reading.literal?_toString h.1 h.2)
  | .literal (.fraction x) _ => exact .number rfl h
  | .var name _ => exact .name h
  | .binary op left right _ =>
    have hl := (left.printed_derives h.1).within op.stratum
    have hr := (right.printed_derives h.2).within op.rightStratum
    exact .binary op.stratum?_kind op.tighter?_stratum hl hr
  | .unary op operand _ => exact .unary op.ofKind?_kind ((operand.printed_derives h).within .unary)
  | .update op target _ _ => exact .update (IsName.names h) op.ofKind?_kind
  | .assign target value _ =>
    exact .assign rfl ((target.printed_derives h.1).within .logical)
      ((value.printed_derives h.2).within .expression)
  | .convert operand source target _ =>
    obtain ⟨hoperand, rfl⟩ := h
    exact .convert ((operand.printed_derives hoperand).within .conversion) rfl target.isName_name
      target.ofName?_name
  | .call callee arguments _ =>
    exact .call (IsName.names h.1) rfl (printedArguments_derive arguments h.2) rfl

theorem printedArguments_derive (es : List Expr) (h : PrintableExprs written es) :
    DerivesArguments (printedArguments written es) (unplacedExprs es) := by
  match es with
  | [] => exact .none
  | [e] => exact .last ((e.printed_derives h.1).of_depth (Nat.zero_le _))
  | e :: e' :: es =>
    exact .more ((e.printed_derives h.1).of_depth (Nat.zero_le _)) rfl (printedArguments_derive (e' :: es) h.2)

end

end Printing

end Numlet
