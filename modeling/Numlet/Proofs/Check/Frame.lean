import Numlet.Proofs.Check.Coupled
import Numlet.Proofs.Check.Functions

/-!
What checking leaves alone. Only two things change what is known of a function: a return in its own body, while
the result is open, and a call that uses its value, while the result is open. So a fixed result stays as it is,
and so does an open one that is used nowhere in the body of another function.
-/
namespace Numlet
open Checking

/-- What is known of a function is fixed, or neither its value is used nor a return of it is checked. -/
def Checker.Spares (s : Checker) (name : String) (used : List String) : Prop :=
  name ∈ used ∨ s.scope.function = some name →
    ∀ signature, s.signatures.find? name = some signature → signature.resultFixed = true

/-- The function at hand and what is known of a function stay as they are. -/
structure Checker.Keeps (name : String) (s s' : Checker) : Prop where
  function : s'.scope.function = s.scope.function
  signature : s'.signatures.find? name = s.signatures.find? name

namespace Checker.Keeps

variable {s s₁ s₂ : Checker} {name : String}

theorem refl (name : String) (s : Checker) : s.Keeps name s := ⟨rfl, rfl⟩

theorem trans (h₁ : Keeps name s s₁) (h₂ : Keeps name s₁ s₂) : Keeps name s s₂ :=
  ⟨h₂.function.trans h₁.function, h₂.signature.trans h₁.signature⟩

/-- A scope of the same function is taken on, or left again. -/
theorem withScope (h : Keeps name s s₁) (scope : Scope) (hscope : scope.function = s.scope.function) :
    Keeps name s (s₁.withScope scope) := ⟨hscope, h.signature⟩

end Checker.Keeps

namespace Checker.Spares

variable {s s' : Checker} {name : String} {used used' : List String}

theorem mono (h : s.Spares name used) (hsub : used' ⊆ used) : s.Spares name used' :=
  fun hin => h (hin.imp (hsub ·) id)

theorem left (h : s.Spares name (used ++ used')) : s.Spares name used :=
  h.mono (List.subset_append_left _ _)

theorem right (h : s.Spares name (used ++ used')) : s.Spares name used' :=
  h.mono (List.subset_append_right _ _)

theorem after (h : s.Spares name used) (hk : Keeps name s s') : s'.Spares name used := by
  intro hin
  rw [hk.function] at hin
  rw [hk.signature]
  exact h hin

end Checker.Spares

mutual

theorem ExprRun.frame {e : Expr} {hint : Option NumType} {s s' : Checker} {t : Typed.Expr} {name : String}
    (h : ExprRun e hint s t s') (hs : s.Spares name e.usedCalls) : Checker.Keeps name s s' := by
  match h with
  | .literal | .var _ | .update _ => exact .refl name s
  | .binary hl hr _ _ =>
    have hleft := hl.frame hs.left
    exact hleft.trans (hr.frame (hs.right.after hleft))
  | .widened hl hr _ ha _ =>
    have hleft := hl.frame hs.left
    have hright := hleft.trans (hr.frame (hs.right.after hleft))
    exact hright.trans (ha.frame (hs.left.after hright))
  | .unary h => exact h.frame hs
  | .assign h => exact h.frame hs
  | .convert h =>
    obtain ⟨log, hlog⟩ := Checker.noted_eq _ _ _
    rw [hlog]
    have hoperand := h.frame hs
    exact ⟨hoperand.function, hoperand.signature⟩
  | .call _ h _ _ _ => exact h.frame (hs.mono (List.subset_cons_self _ _))
  | .pinningCall _ h hf hc =>
    have harguments := h.frame (hs.mono (List.subset_cons_self _ _))
    refine harguments.trans ⟨rfl, Table.find?_insert_of_ne _ _ ?_⟩
    -- A call that pins is one of an open result.
    rintro rfl
    rw [hs (.inl List.mem_cons_self) _ (harguments.signature.symm.trans hf)] at hc
    cases hc

theorem AssignRun.frame {target : String} {place : Position} {value : Expr} {s s' : Checker} {slot : String}
    {t : Typed.Expr} {type : NumType} {name : String} (h : AssignRun target place value s slot t type s')
    (hs : s.Spares name value.usedCalls) : Checker.Keeps name s s' := by
  match h with
  | .bound h _ _ =>
    have hvalue := h.frame hs
    exact ⟨(Scope.function_retype _ _ _).trans hvalue.function, hvalue.signature⟩
  | .fresh h _ _ =>
    have hvalue := h.frame hs
    exact ⟨hvalue.function, hvalue.signature⟩

theorem ArgumentsRun.frame {es : List Expr} {types : List NumType} {s s' : Checker}
    {ts : List Typed.Expr} {name : String} (h : ArgumentsRun es types s ts s')
    (hs : s.Spares name (usedCallsOfExprs es)) : Checker.Keeps name s s' := by
  match h with
  | .nil => exact .refl name s
  | .cons h _ hrest =>
    have hfirst := h.frame hs.left
    exact hfirst.trans (hrest.frame (hs.right.after hfirst))

end

theorem ExprRun?.frame {e : Option Expr} {s s' : Checker} {t : Option Typed.Expr} {name : String}
    (h : ExprRun? e s t s') (hs : s.Spares name (usedCallsOfExpr? e)) : Checker.Keeps name s s' := by
  cases h with
  | missing => exact .refl name s
  | present h => exact h.frame hs

theorem usedCallsOfStep (step : Option Expr) :
    usedCallsOfStmt? (step.map Stmt.ofExpr) = (step.map Expr.usedAsStmt).getD [] := by
  cases step with
  | none => rfl
  | some e => cases e <;> rfl

mutual

theorem StmtRun.frame {stmt : Stmt} {s s' : Checker} {t : Typed.Stmt} {name : String}
    (h : StmtRun stmt s t s') (hs : s.Spares name stmt.usedCalls) : Checker.Keeps name s s' := by
  match h with
  | .declare => exact ⟨rfl, rfl⟩
  | .declareValue h _ =>
    have hvalue := h.frame hs
    exact ⟨hvalue.function, hvalue.signature⟩
  | .breakLoop _ | .continueLoop _ => exact .refl name s
  | .returnBare _ _ _ => exact ⟨rfl, rfl⟩
  | .assign h => exact h.frame hs
  | .branch hc hy hn =>
    have hcondition := hc.frame hs.left.left
    have hyes := hcondition.trans ((hy.frame (hs.left.right.after hcondition)).withScope _ rfl)
    have hno := hyes.trans (hn.frame (hs.right.after hyes))
    exact hno.withScope _ hcondition.function
  | .whileLoop hc hb =>
    have hcondition := hc.frame hs.left
    have henter := hcondition.withScope (Scope.loopBody _) hcondition.function
    have hbody := henter.trans (hb.frame (hs.right.after henter))
    exact hbody.withScope _ hcondition.function
  | .forLoop hstart hc hb hp =>
    have hfirst := hstart.frame hs.left.left.left
    have hcondition := hfirst.trans (hc.frame (hs.left.left.right.after hfirst))
    have henter := hcondition.withScope (Scope.loopBody _) hcondition.function
    have hbody := henter.trans (hb.frame (hs.right.after henter))
    have hback := hbody.withScope _ hcondition.function
    have hstep := hs.left.right
    rw [← usedCallsOfStep] at hstep
    exact (hback.trans (hp.frame (hstep.after hback))).withScope _ rfl
  | .returnFixed _ _ h _ _ _ =>
    have hvalue := h.frame hs
    exact ⟨hvalue.function, hvalue.signature⟩
  | .returnInferred hf hsig h _ hx _ =>
    have hvalue := h.frame hs
    refine ⟨hvalue.function, (Table.find?_insert_of_ne _ _ ?_).trans hvalue.signature⟩
    -- A return that sets a result is one in the function itself, with an open result.
    rintro rfl
    rw [hs (.inr hf) _ hsig] at hx
    cases hx
  | .print h => exact h.frame hs
  | .block h => exact (h.frame hs).withScope _ rfl
  | .expression h => exact h.frame hs
  | .call _ h => exact h.frame hs

theorem StmtRun?.frame {stmt : Option Stmt} {s s' : Checker} {t : Option Typed.Stmt} {name : String}
    (h : StmtRun? stmt s t s') (hs : s.Spares name (usedCallsOfStmt? stmt)) :
    Checker.Keeps name s s' := by
  match h with
  | .missing => exact .refl name s
  | .present h => exact h.frame hs

theorem StmtsRun.frame {stmts : List Stmt} {s s' : Checker} {ts : List Typed.Stmt} {name : String}
    (h : StmtsRun stmts s ts s') (hs : s.Spares name (usedCallsOfStmts stmts)) :
    Checker.Keeps name s s' := by
  match h with
  | .nil => exact .refl name s
  | .cons h hrest =>
    have hfirst := h.frame hs.left
    exact hfirst.trans (hrest.frame (hs.right.after hfirst))

end

section Passes

variable {scope : Scope} {parameters : List Typed.Parameter} {body : List Stmt}
  {readTypes : Table NumType} {s s' : Checker} {typed : List Typed.Stmt} {name : String}

/-- What a declaration leaves as it is stays so while parameters are declared. -/
theorem Checker.foldl_declared {α : Type} (view : Checker → α)
    (h : ∀ (s : Checker) (name : String) (type : NumType), view (s.declared name type true) = view s)
    (ps : List Typed.Parameter) (s : Checker) :
    view (ps.foldl (fun s p => s.declared p.name p.type true) s) = view s := by
  induction ps generalizing s with
  | nil => rfl
  | cons p ps ih => exact (ih (s.declared p.name p.type true)).trans (h s p.name p.type)

theorem PassRun.frame (h : PassRun scope parameters body readTypes s typed s')
    (hs : (s.withScope scope).Spares name (usedCallsOfStmts body)) :
    s'.signatures.find? name = s.signatures.find? name := by
  obtain ⟨h⟩ := h
  have hentered : Checker.Keeps name (s.withScope scope) (s.entered scope readTypes parameters) := by
    unfold Checker.entered
    exact ⟨Checker.foldl_declared (·.scope.function) (fun _ _ _ => rfl) parameters _,
      Checker.foldl_declared (·.signatures.find? name) (fun _ _ _ => rfl) parameters _⟩
  exact (hentered.trans (h.frame (hs.after hentered))).signature

theorem Passes.frame (h : Passes scope parameters body readTypes s typed s')
    (hs : (s.withScope scope).Spares name (usedCallsOfStmts body)) :
    s'.signatures.find? name = s.signatures.find? name := by
  induction h with
  | last h _ => exact h.frame hs
  | @again readTypes s typed s₁ final s₂ h _ _ ih =>
    have hfirst := h.frame hs
    have hkeeps : Checker.Keeps name (s.withScope scope) (s₁.withScope scope) := ⟨rfl, hfirst⟩
    exact (ih (hs.after hkeeps)).trans hfirst

end Passes

end Numlet
