import Numlet.Proofs.Check.Bindings
import Numlet.Proofs.Typed.Parts

/-!
Every expression and every statement of a checked tree was made by a run of its own inside the run that
made the tree. What holds of a node follows from its own run and from what the states around it keep.
-/
namespace Numlet
open Checking

/-- `s'` stands inside a run that starts at `s`: behind finished parts and in inner scopes. -/
inductive Enters : Checker → Checker → Prop
  | refl {s} : Enters s s
  | advance {s s₁ s₂} (h : Enters s s₁) (ha : Advance (fun _ => True) s₁ s₂) : Enters s s₂
  | scope {s s₁ scope} (h : Enters s s₁) (hb : scope.bindings = s₁.scope.bindings)
      (hf : scope.function = s₁.scope.function) : Enters s (s₁.withScope scope)

namespace Enters

theorem trans {s s₁ s₂ : Checker} (h₁ : Enters s s₁) (h₂ : Enters s₁ s₂) : Enters s s₂ := by
  induction h₂ with
  | refl => exact h₁
  | advance _ ha ih => exact .advance ih ha
  | scope _ hb hf ih => exact .scope ih hb hf

theorem of_steps {s s₁ : Checker} (h : Steps (fun _ => True) s s₁) : Enters s s₁ :=
  .advance .refl (.steps h)

theorem of_advance {s s₁ : Checker} (h : Advance (fun _ => True) s s₁) : Enters s s₁ :=
  .advance .refl h

theorem grows {s s' : Checker} (h : Enters s s') : s.Grows s' := by
  induction h with
  | refl => exact .refl _
  | advance _ ha ih => exact ih.trans ha.extends.toGrows
  | scope _ _ _ ih => exact { ih with }

theorem function {s s' : Checker} (h : Enters s s') : s'.scope.function = s.scope.function := by
  induction h with
  | refl => rfl
  | advance _ ha ih => exact ha.extends.function.trans ih
  | scope _ _ hf ih => exact hf.trans ih

theorem bound {s s' : Checker} (h : Enters s s') (hb : s.Bound) : s'.Bound := by
  induction h with
  | refl => exact hb
  | advance _ ha ih => exact ha.bound ih
  | scope _ hs _ ih => exact ih.mono hs (.refl _)

end Enters

/-- A run between `s` and `s'` made `x`. -/
def MadeExpr (s s' : Checker) (x : Typed.Expr) : Prop :=
  ∃ e hint s₁ s₂, ExprRun e hint s₁ x s₂ ∧ Enters s s₁ ∧ s₂.Grows s'

def MadeStmt (s s' : Checker) (x : Typed.Stmt) : Prop :=
  ∃ stmt s₁ s₂, StmtRun stmt s₁ x s₂ ∧ Enters s s₁ ∧ s₂.Grows s'

theorem MadeExpr.mono {s s₁ s₂ s' : Checker} {x : Typed.Expr} (h : MadeExpr s₁ s₂ x)
    (hs : Enters s s₁) (hg : s₂.Grows s') : MadeExpr s s' x := by
  obtain ⟨e, hint, t₁, t₂, hrun, hin, hout⟩ := h
  exact ⟨e, hint, t₁, t₂, hrun, hs.trans hin, hout.trans hg⟩

theorem MadeStmt.mono {s s₁ s₂ s' : Checker} {x : Typed.Stmt} (h : MadeStmt s₁ s₂ x)
    (hs : Enters s s₁) (hg : s₂.Grows s') : MadeStmt s s' x := by
  obtain ⟨stmt, t₁, t₂, hrun, hin, hout⟩ := h
  exact ⟨stmt, t₁, t₂, hrun, hs.trans hin, hout.trans hg⟩

theorem ExprRun.free {e : Expr} {hint : Option NumType} {s s' : Checker} {t : Typed.Expr}
    (h : ExprRun e hint s t s') : Steps (fun _ => True) s s' := h.steps fun _ _ => trivial

theorem ArgumentsRun.free {es : List Expr} {types : List NumType} {s s' : Checker}
    {ts : List Typed.Expr} (h : ArgumentsRun es types s ts s') : Steps (fun _ => True) s s' :=
  h.steps fun _ _ => trivial

theorem ExprRun?.free {e : Option Expr} {s s' : Checker} {t : Option Typed.Expr}
    (h : ExprRun? e s t s') : Steps (fun _ => True) s s' := h.steps fun _ _ => trivial

theorem StmtRun.free {stmt : Stmt} {s s' : Checker} {t : Typed.Stmt} (h : StmtRun stmt s t s') :
    Advance (fun _ => True) s s' := h.advance fun _ _ => trivial

theorem StmtRun?.free {stmt : Option Stmt} {s s' : Checker} {t : Option Typed.Stmt}
    (h : StmtRun? stmt s t s') : Advance (fun _ => True) s s' := h.advance fun _ _ => trivial

theorem StmtsRun.free {stmts : List Stmt} {s s' : Checker} {ts : List Typed.Stmt}
    (h : StmtsRun stmts s ts s') : Advance (fun _ => True) s s' := h.advance fun _ _ => trivial

/-- A run between `s` and `s'`, both in the same expression, made `x`. -/
def ExprPart (s s' : Checker) (x : Typed.Expr) : Prop :=
  ∃ e hint s₁ s₂, ExprRun e hint s₁ x s₂ ∧ Steps (fun _ => True) s s₁ ∧ Steps (fun _ => True) s₂ s'

theorem ExprPart.mono {s s₁ s₂ s' : Checker} {x : Typed.Expr} (h : ExprPart s₁ s₂ x)
    (hs : Steps (fun _ => True) s s₁) (hg : Steps (fun _ => True) s₂ s') : ExprPart s s' x := by
  obtain ⟨e, hint, t₁, t₂, hrun, hin, hout⟩ := h
  exact ⟨e, hint, t₁, t₂, hrun, hs.trans hin, hout.trans hg⟩

theorem Checker.noted_steps (s : Checker) (written : Option NumType) (type : NumType) :
    Steps (fun _ => True) s (s.noted written type) := by
  unfold Checker.noted
  split
  · exact .refl
  · split
    · exact .single (.report (by simp))
    · exact .refl

mutual

theorem ExprRun.part {e : Expr} {hint : Option NumType} {s s' : Checker} {t : Typed.Expr}
    (h : ExprRun e hint s t s') : ∀ x ∈ t.parts, ExprPart s s' x := by
  intro x hx
  have hself : ExprPart s s' t := ⟨_, _, _, _, h, .refl, .refl⟩
  match h with
  | .literal | .var _ | .update _ =>
    cases List.mem_singleton.mp hx
    exact hself
  | .binary hl hr hw ht =>
    simp only [Typed.Expr.parts, List.mem_append, List.mem_singleton] at hx
    obtain (hx | hx) | rfl := hx
    · exact (hl.part x hx).mono .refl hr.free
    · exact (hr.part x hx).mono hl.free .refl
    · exact hself
  | .widened hl hr hw ha ht =>
    simp only [Typed.Expr.parts, List.mem_append, List.mem_singleton] at hx
    obtain (hx | hx) | rfl := hx
    · exact (ha.part x hx).mono (hl.free.trans hr.free) .refl
    · exact (hr.part x hx).mono hl.free ha.free
    · exact hself
  | .unary ho =>
    simp only [Typed.Expr.parts, List.mem_append, List.mem_singleton] at hx
    obtain hx | rfl := hx
    · exact ho.part x hx
    · exact hself
  | .assign ha =>
    simp only [Typed.Expr.parts, List.mem_append, List.mem_singleton] at hx
    obtain hx | rfl := hx
    · exact ha.part x hx
    · exact hself
  | .convert ho =>
    simp only [Typed.Expr.parts, List.mem_append, List.mem_singleton] at hx
    obtain hx | rfl := hx
    · exact (ho.part x hx).mono .refl (Checker.noted_steps _ _ _)
    · exact hself
  | .call _ ha _ _ _ =>
    simp only [Typed.Expr.parts, List.mem_append, List.mem_singleton] at hx
    obtain hx | rfl := hx
    · exact ha.part x hx
    · exact hself
  | .pinningCall _ ha hf hc =>
    simp only [Typed.Expr.parts, List.mem_append, List.mem_singleton] at hx
    obtain hx | rfl := hx
    · exact (ha.part x hx).mono .refl (.single (.pin hf hc))
    · exact hself

theorem AssignRun.part {name : String} {place : Position} {value : Expr} {s s' : Checker} {slot : String}
    {t : Typed.Expr} {type : NumType} (h : AssignRun name place value s slot t type s') :
    ∀ x ∈ t.parts, ExprPart s s' x := by
  intro x hx
  match h with
  | .bound h hv ht =>
    exact (h.part x hx).mono .refl (.single (.assign hv ht))
  | .fresh h hv ha =>
    refine (h.part x hx).mono .refl (.tail (.single (.report ?_)) (.declare trivial))
    simp

theorem ArgumentsRun.part {es : List Expr} {types : List NumType} {s s' : Checker}
    {ts : List Typed.Expr} (h : ArgumentsRun es types s ts s') :
    ∀ x ∈ Typed.partsOfExprs ts, ExprPart s s' x := by
  intro x hx
  match h with
  | .nil => cases hx
  | .cons h hp hs =>
    simp only [Typed.partsOfExprs, List.mem_append] at hx
    obtain hx | hx := hx
    · exact (h.part x hx).mono .refl hs.free
    · exact (hs.part x hx).mono h.free .refl

end

theorem ExprPart.made {s s' : Checker} {x : Typed.Expr} (h : ExprPart s s' x) : MadeExpr s s' x := by
  obtain ⟨e, hint, s₁, s₂, hrun, hin, hout⟩ := h
  exact ⟨e, hint, s₁, s₂, hrun, .of_steps hin, hout.extends.toGrows⟩

theorem ExprRun.made {e : Expr} {hint : Option NumType} {s s' : Checker} {t : Typed.Expr}
    (h : ExprRun e hint s t s') : ∀ x ∈ t.parts, MadeExpr s s' x :=
  fun x hx => (h.part x hx).made

theorem AssignRun.made {name : String} {place : Position} {value : Expr} {s s' : Checker} {slot : String}
    {t : Typed.Expr} {type : NumType} (h : AssignRun name place value s slot t type s') :
    ∀ x ∈ t.parts, MadeExpr s s' x :=
  fun x hx => (h.part x hx).made

theorem ArgumentsRun.made {es : List Expr} {types : List NumType} {s s' : Checker}
    {ts : List Typed.Expr} (h : ArgumentsRun es types s ts s') :
    ∀ x ∈ Typed.partsOfExprs ts, MadeExpr s s' x :=
  fun x hx => (h.part x hx).made

theorem ExprRun?.made {e : Option Expr} {s s' : Checker} {t : Option Typed.Expr}
    (h : ExprRun? e s t s') : ∀ x ∈ Typed.partsOfExpr? t, MadeExpr s s' x := by
  intro x hx
  cases h with
  | missing => cases hx
  | present h => exact h.made x hx

/-- Leaving a scope keeps all that grows. -/
theorem Checker.Grows.leave {s s' : Checker} {scope : Scope} (h : s.Grows s') :
    s.Grows (s'.withScope scope) := { h with }

theorem Checker.Grows.enter {s s' : Checker} {scope : Scope} (h : (s.withScope scope).Grows s') :
    s.Grows s' := { h with }

theorem Enters.copied {s s' : Checker} (h : Advance (fun _ => True) s s') :
    Enters s (s'.withScope s.scope) := .of_advance h.copied

theorem Enters.looped (s : Checker) : Enters s (s.withScope s.scope.loopBody) :=
  .scope .refl rfl rfl

mutual

theorem StmtRun.made {stmt : Stmt} {s s' : Checker} {t : Typed.Stmt} (h : StmtRun stmt s t s') :
    (∀ x ∈ t.exprs, MadeExpr s s' x) ∧ ∀ x ∈ t.parts, MadeStmt s s' x := by
  have hself : MadeStmt s s' t := ⟨_, _, _, h, .refl, .refl _⟩
  -- a statement with no statement inside is its own only part
  have hleaf : ∀ x ∈ [t], MadeStmt s s' x := by
    intro x hx
    cases List.mem_singleton.mp hx
    exact hself
  match h with
  | .declare | .breakLoop _ | .continueLoop _ | .returnBare _ _ _ =>
    exact ⟨fun x hx => (by cases hx), hleaf⟩
  | .declareValue hv _ =>
    refine ⟨fun x hx => ?_, hleaf⟩
    exact (hv.made x hx).mono .refl
        (Step.declare (N := fun _ => True) trivial).extends.toGrows
  | .assign ha =>
    exact ⟨ha.made, hleaf⟩
  | .branch hc hy hn =>
    have hyes := hy.made
    have hno := hn.made
    have hin : Enters s _ := .of_steps hc.free
    have hafter : Enters s _ := hin.trans (.copied hy.free)
    have hrest := hn.free.extends.toGrows.enter
    refine ⟨fun x hx => ?_, fun x hx => ?_⟩
    · simp only [Typed.Stmt.exprs, List.mem_append] at hx
      obtain (hx | hx) | hx := hx
      · exact (hc.made x hx).mono .refl (hy.free.extends.toGrows.trans hrest).leave
      · exact (hyes.1 x hx).mono hin hrest.leave
      · exact (hno.1 x hx).mono hafter (Checker.Grows.refl _).leave
    · simp only [Typed.Stmt.parts, List.mem_append, List.mem_singleton] at hx
      obtain (hx | hx) | rfl := hx
      · exact (hyes.2 x hx).mono hin hrest.leave
      · exact (hno.2 x hx).mono hafter (Checker.Grows.refl _).leave
      · exact hself
  | .whileLoop hc hb =>
    have hbody := hb.made
    have hin : Enters s _ := (Enters.of_steps hc.free).trans (.looped _)
    refine ⟨fun x hx => ?_, fun x hx => ?_⟩
    · simp only [Typed.Stmt.exprs, Typed.exprsOfStmt?, List.mem_append, List.not_mem_nil, or_false,
        false_or] at hx
      obtain hx | hx := hx
      · exact (hc.made x hx).mono .refl hb.free.extends.toGrows.enter.leave
      · exact (hbody.1 x hx).mono hin (Checker.Grows.refl _).leave
    · simp only [Typed.Stmt.parts, Typed.partsOfStmt?, List.mem_append, List.not_mem_nil, or_false,
        false_or, List.mem_singleton] at hx
      obtain hx | rfl := hx
      · exact (hbody.2 x hx).mono hin (Checker.Grows.refl _).leave
      · exact hself
  | .forLoop hs hc hb hp =>
    have hstart := hs.made
    have hbody := hb.made
    have hstep := hp.made
    have hcond : Enters s _ := .of_advance hs.free
    have hin := hcond.trans (.of_steps hc.free)
    have hend₁ := hp.free.extends.toGrows.enter
    have hend₂ := hb.free.extends.toGrows.enter.trans hend₁
    have hend₃ := hc.free.extends.toGrows.trans hend₂
    refine ⟨fun x hx => ?_, fun x hx => ?_⟩
    · simp only [Typed.Stmt.exprs, List.mem_append] at hx
      obtain ((hx | hx) | hx) | hx := hx
      · exact (hstart.1 x hx).mono .refl hend₃.leave
      · exact (hc.made x hx).mono hcond hend₂.leave
      · exact (hbody.1 x hx).mono (hin.trans (.looped _)) hend₁.leave
      · exact (hstep.1 x hx).mono (hin.trans (.of_advance hb.free.looped))
          (Checker.Grows.refl _).leave
    · simp only [Typed.Stmt.parts, List.mem_append, List.mem_singleton] at hx
      obtain ((hx | hx) | hx) | rfl := hx
      · exact (hstart.2 x hx).mono .refl hend₃.leave
      · exact (hbody.2 x hx).mono (hin.trans (.looped _)) hend₁.leave
      · exact (hstep.2 x hx).mono (hin.trans (.of_advance hb.free.looped))
          (Checker.Grows.refl _).leave
      · exact hself
  | .returnFixed hf hs hv hb hx ht =>
    refine ⟨fun x hx => ?_, hleaf⟩
    exact (hv.made x hx).mono .refl { Checker.Grows.refl _ with valuedReturn := fun _ => rfl }
  | .returnInferred hf hs hv hb hx hc =>
    refine ⟨fun x hx => ?_, hleaf⟩
    exact (hv.made x hx).mono .refl
        ((hv.free.grows_inferred hs hc _).trans
          { Checker.Grows.refl _ with valuedReturn := fun _ => rfl })
  | .print hv =>
    exact ⟨hv.made, hleaf⟩
  | .block hb =>
    have hbody := hb.made
    refine ⟨fun x hx => ?_, fun x hx => ?_⟩
    · exact (hbody.1 x hx).mono .refl (Checker.Grows.refl _).leave
    · simp only [Typed.Stmt.parts, List.mem_append, List.mem_singleton] at hx
      obtain hx | rfl := hx
      · exact (hbody.2 x hx).mono .refl (Checker.Grows.refl _).leave
      · exact hself
  | .expression hv =>
    exact ⟨hv.made, hleaf⟩
  | .call _ ha =>
    exact ⟨ha.made, hleaf⟩

theorem StmtRun?.made {stmt : Option Stmt} {s s' : Checker} {t : Option Typed.Stmt}
    (h : StmtRun? stmt s t s') : (∀ x ∈ Typed.exprsOfStmt? t, MadeExpr s s' x) ∧
      ∀ x ∈ Typed.partsOfStmt? t, MadeStmt s s' x := by
  match h with
  | .missing => exact ⟨fun x hx => (by cases hx), fun x hx => (by cases hx)⟩
  | .present h => exact h.made

theorem StmtsRun.made {stmts : List Stmt} {s s' : Checker} {ts : List Typed.Stmt}
    (h : StmtsRun stmts s ts s') : (∀ x ∈ Typed.exprsOfStmts ts, MadeExpr s s' x) ∧
      ∀ x ∈ Typed.partsOfStmts ts, MadeStmt s s' x := by
  match h with
  | .nil => exact ⟨fun x hx => (by cases hx), fun x hx => (by cases hx)⟩
  | .cons h hs =>
    have hfirst := h.made
    have hrest := hs.made
    have hend := hs.free.extends.toGrows
    refine ⟨fun x hx => ?_, fun x hx => ?_⟩
    · simp only [Typed.exprsOfStmts, List.mem_append] at hx
      obtain hx | hx := hx
      · exact (hfirst.1 x hx).mono .refl hend
      · exact (hrest.1 x hx).mono (.of_advance h.free) (.refl _)
    · simp only [Typed.partsOfStmts, List.mem_append] at hx
      obtain hx | hx := hx
      · exact (hfirst.2 x hx).mono .refl hend
      · exact (hrest.2 x hx).mono (.of_advance h.free) (.refl _)

end

end Numlet
