import Numlet.Proofs.Check.Statements
import Numlet.Proofs.Typed.Parts

/-!
A checked tree has the calls and the literals of its source, in the same order.
-/
namespace Numlet
open Checking

/-- Parts of a checked tree whose calls and literals are the given ones. -/
structure Typed.LeavesAre (parts : List Typed.Expr) (callees : List String) (literals : List Literal) :
    Prop where
  callees : parts.filterMap Expr.callee? = callees
  literals : parts.filterMap Expr.literal? = literals

namespace Typed.LeavesAre

variable {xs ys : List Typed.Expr} {a b : List String} {l m : List Literal}

theorem nil : LeavesAre [] [] [] := ⟨rfl, rfl⟩

theorem append (h₁ : LeavesAre xs a l) (h₂ : LeavesAre ys b m) : LeavesAre (xs ++ ys) (a ++ b) (l ++ m) :=
  ⟨by rw [List.filterMap_append, h₁.callees, h₂.callees],
    by rw [List.filterMap_append, h₁.literals, h₂.literals]⟩

/-- A part around others that is neither a call nor a literal. -/
theorem around {x : Typed.Expr} (h : LeavesAre xs a l) (hc : x.callee? = none)
    (hl : x.literal? = none) : LeavesAre (xs ++ [x]) a l :=
  ⟨by simp [h.callees, hc], by simp [h.literals, hl]⟩

theorem call {f : String} {es : List Typed.Expr} {ts : List NumType} {t : NumType} {sp sp' : Span}
    (h : LeavesAre xs a l) : LeavesAre (xs ++ [.call f es ts sp t sp']) (a ++ [f]) l :=
  ⟨by simp [h.callees, Expr.callee?], by simp [h.literals, Expr.literal?]⟩

end Typed.LeavesAre

mutual

theorem ExprRun.leaves {e : Expr} {hint : Option NumType} {s s' : Checker} {t : Typed.Expr}
    (h : ExprRun e hint s t s') : Typed.LeavesAre t.parts e.callees e.literals := by
  match h with
  | .literal | .var _ | .update _ => exact ⟨rfl, rfl⟩
  | .binary hl hr _ _ => exact (hl.leaves.append hr.leaves).around rfl rfl
  | .widened _ hr _ ha _ => exact (ha.leaves.append hr.leaves).around rfl rfl
  | .unary h => exact h.leaves.around rfl rfl
  | .assign h => exact h.leaves.around rfl rfl
  | .convert h => exact h.leaves.around rfl rfl
  | .call _ h _ _ _ => exact h.leaves.call
  | .pinningCall _ h _ _ => exact h.leaves.call

theorem AssignRun.leaves {name : String} {place : Position} {value : Expr} {s s' : Checker} {slot : String}
    {t : Typed.Expr} {type : NumType} (h : AssignRun name place value s slot t type s') :
    Typed.LeavesAre t.parts value.callees value.literals := by
  match h with
  | .bound h _ _ => exact h.leaves
  | .fresh h _ _ => exact h.leaves

theorem ArgumentsRun.leaves {es : List Expr} {types : List NumType} {s s' : Checker}
    {ts : List Typed.Expr} (h : ArgumentsRun es types s ts s') :
    Typed.LeavesAre (Typed.partsOfExprs ts) (calleesOfExprs es) (literalsOfExprs es) := by
  match h with
  | .nil => exact .nil
  | .cons h _ hs => exact h.leaves.append hs.leaves

end

theorem ExprRun?.leaves {e : Option Expr} {s s' : Checker} {t : Option Typed.Expr}
    (h : ExprRun? e s t s') :
    Typed.LeavesAre (Typed.partsOfExpr? t) (calleesOfExpr? e) (literalsOfExpr? e) := by
  cases h with
  | missing => exact .nil
  | present h => exact h.leaves

mutual

theorem StmtRun.leaves {stmt : Stmt} {s s' : Checker} {t : Typed.Stmt} (h : StmtRun stmt s t s') :
    Typed.LeavesAre t.exprs stmt.callees stmt.literals := by
  match h with
  | .declare | .breakLoop _ | .continueLoop _ | .returnBare _ _ _ => exact .nil
  | .declareValue hv _ => exact hv.leaves
  | .assign ha => exact ha.leaves
  | .branch hc hy hn => exact (hc.leaves.append hy.leaves).append hn.leaves
  | .whileLoop hc hb =>
    simp only [Typed.Stmt.exprs, Typed.exprsOfStmt?, List.append_nil, List.nil_append]
    exact hc.leaves.append hb.leaves
  | .forLoop hs hc hb hp =>
    have hall := ((hs.leaves.append hc.leaves).append hb.leaves).append hp.leaves
    rw [calleesOfStep, literalsOfStep] at hall
    exact hall
  | .returnFixed _ _ hv _ _ _ => exact hv.leaves
  | .returnInferred _ _ hv _ _ _ => exact hv.leaves
  | .print hv => exact hv.leaves
  | .block hb => exact hb.leaves
  | .expression hv => exact hv.leaves
  | .call _ ha => exact ha.leaves

theorem StmtRun?.leaves {stmt : Option Stmt} {s s' : Checker} {t : Option Typed.Stmt}
    (h : StmtRun? stmt s t s') :
    Typed.LeavesAre (Typed.exprsOfStmt? t) (calleesOfStmt? stmt) (literalsOfStmt? stmt) := by
  match h with
  | .missing => exact .nil
  | .present h => exact h.leaves

theorem StmtsRun.leaves {stmts : List Stmt} {s s' : Checker} {ts : List Typed.Stmt}
    (h : StmtsRun stmts s ts s') :
    Typed.LeavesAre (Typed.exprsOfStmts ts) (calleesOfStmts stmts) (literalsOfStmts stmts) := by
  match h with
  | .nil => exact .nil
  | .cons h hs => exact h.leaves.append hs.leaves

end

end Numlet
