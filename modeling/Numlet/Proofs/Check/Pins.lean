import Numlet.Proofs.Check.Calls

/-!
Where results are pinned. Every pin that a run reports has a call of that type in the tree that the run
makes, and a pin that is not kept has its call in the value of a return.
-/
namespace Numlet
open Checking

theorem ExprRun.of_constant {e : Expr} {hint : Option NumType} {s s' : Checker} {t : Typed.Expr}
    (h : ExprRun e hint s t s') (hc : e.isConstant = true) : s' = s := by
  match h with
  | .literal => rfl
  | .unary h => exact h.of_constant hc
  | .binary hl hr _ _ =>
    simp only [Expr.isConstant, Bool.and_eq_true] at hc
    exact (hr.of_constant hc.2).trans (hl.of_constant hc.1)
  | .widened hl hr _ ha _ =>
    simp only [Expr.isConstant, Bool.and_eq_true] at hc
    exact (ha.of_constant hc.1).trans ((hr.of_constant hc.2).trans (hl.of_constant hc.1))
  | .var _ | .update _ | .assign _ | .convert _ | .call _ _ _ _ _ | .pinningCall _ _ _ _ => cases hc

/-- A call of `f` for a value of type `t`. -/
def Typed.Expr.IsCall (f : String) (t : NumType) : Typed.Expr → Prop
  | .call callee _ _ _ type _ => callee = f ∧ type = t
  | _ => False

/-- Every pin of `f` that `s'` reports and `s` does not has a call among `parts`. -/
def Checker.PinsIn (s s' : Checker) (parts : List Typed.Expr) : Prop :=
  ∀ f t, .resultPinned f t ∈ s'.log → .resultPinned f t ∈ s.log ∨ ∃ x ∈ parts, x.IsCall f t

namespace Checker.PinsIn

variable {s s₁ s₂ s' : Checker} {xs ys : List Typed.Expr}

theorem of_log (h : s'.log = s.log) : s.PinsIn s' xs := by
  intro f t ht
  rw [h] at ht
  exact .inl ht

theorem append (h₁ : s.PinsIn s₁ xs) (h₂ : s₁.PinsIn s₂ ys) : s.PinsIn s₂ (xs ++ ys) := by
  intro f t ht
  obtain ht | ⟨x, hx, hcall⟩ := h₂ f t ht
  · obtain ht | ⟨x, hx, hcall⟩ := h₁ f t ht
    · exact .inl ht
    · exact .inr ⟨x, List.mem_append_left _ hx, hcall⟩
  · exact .inr ⟨x, List.mem_append_right _ hx, hcall⟩

theorem quiet (h : s.PinsIn s₁ xs) (hq : ∀ f t, .resultPinned f t ∈ s'.log → .resultPinned f t ∈ s₁.log) :
    s.PinsIn s' xs :=
  fun f t ht => h f t (hq f t ht)

theorem mono (h : s.PinsIn s' xs) (hs : ∀ x ∈ xs, x ∈ ys) : s.PinsIn s' ys := by
  intro f t ht
  obtain ht | ⟨x, hx, hcall⟩ := h f t ht
  · exact .inl ht
  · exact .inr ⟨x, hs x hx, hcall⟩

theorem withScope {scope : Scope} (h : s.PinsIn s' xs) : s.PinsIn (s'.withScope scope) xs := h

theorem of_withScope {scope : Scope} (h : (s.withScope scope).PinsIn s' xs) : s.PinsIn s' xs := h

end Checker.PinsIn

theorem Checker.pinned_of_noted {s : Checker} {written : Option NumType} {type : NumType} (f : String)
    (t : NumType) (h : .resultPinned f t ∈ (s.noted written type).log) : .resultPinned f t ∈ s.log := by
  unfold noted at h
  split at h
  · exact h
  · split at h
    · exact pinned_of_reported (by simp) f t h
    · exact h

mutual

theorem ExprRun.pinsIn {e : Expr} {hint : Option NumType} {s s' : Checker} {t : Typed.Expr}
    (h : ExprRun e hint s t s') : s.PinsIn s' t.parts := by
  match h with
  | .literal | .var _ | .update _ => exact .of_log rfl
  | .binary hl hr _ _ => exact (hl.pinsIn.append hr.pinsIn).mono fun x hx => List.mem_append_left _ hx
  | .widened hl hr hw ha _ =>
    -- The left operand is a constant, so its first check leaves nothing behind.
    have hc : _ = true := (Bool.and_eq_true_iff.mp hw).2
    have hr' := hr.pinsIn
    rw [hl.of_constant hc] at hr'
    rw [ha.of_constant hc]
    refine hr'.mono fun x hx => ?_
    exact List.mem_append_left _ (List.mem_append_right _ hx)
  | .unary h => exact h.pinsIn.mono fun x hx => List.mem_append_left _ hx
  | .assign h => exact h.pinsIn.mono fun x hx => List.mem_append_left _ hx
  | .convert h =>
    exact (h.pinsIn.quiet Checker.pinned_of_noted).mono fun x hx => List.mem_append_left _ hx
  | .call _ h _ _ _ => exact h.pinsIn.mono fun x hx => List.mem_append_left _ hx
  | .pinningCall _ h hf hc =>
    intro f t ht
    obtain ht | ht := Array.mem_push.mp ht
    · exact h.pinsIn.mono (fun x hx => List.mem_append_left _ hx) f t ht
    · cases ht
      exact .inr ⟨_, List.mem_append_right _ (List.mem_singleton.mpr rfl), rfl, rfl⟩

theorem AssignRun.pinsIn {name : String} {place : Position} {value : Expr} {s s' : Checker} {slot : String}
    {t : Typed.Expr} {type : NumType} (h : AssignRun name place value s slot t type s') :
    s.PinsIn s' t.parts := by
  match h with
  | .bound h _ _ => exact h.pinsIn.quiet Checker.pinned_of_recorded
  | .fresh h _ _ =>
    refine h.pinsIn.quiet fun f t ht => ?_
    exact Checker.pinned_of_reported (by simp) f t (Checker.pinned_of_recorded f t ht)

theorem ArgumentsRun.pinsIn {es : List Expr} {types : List NumType} {s s' : Checker}
    {ts : List Typed.Expr} (h : ArgumentsRun es types s ts s') :
    s.PinsIn s' (Typed.partsOfExprs ts) := by
  match h with
  | .nil => exact .of_log rfl
  | .cons h _ hs => exact h.pinsIn.append hs.pinsIn

end

theorem ExprRun?.pinsIn {e : Option Expr} {s s' : Checker} {t : Option Typed.Expr}
    (h : ExprRun? e s t s') : s.PinsIn s' (Typed.partsOfExpr? t) := by
  cases h with
  | missing => exact .of_log rfl
  | present h => exact h.pinsIn

mutual

theorem StmtRun.pinsIn {stmt : Stmt} {s s' : Checker} {t : Typed.Stmt} (h : StmtRun stmt s t s') :
    s.PinsIn s' t.exprs := by
  match h with
  | .declare => exact fun f t ht => .inl (Checker.pinned_of_recorded f t ht)
  | .breakLoop _ | .continueLoop _ | .returnBare _ _ _ => exact .of_log rfl
  | .declareValue hv _ => exact hv.pinsIn.quiet Checker.pinned_of_recorded
  | .assign ha => exact ha.pinsIn
  | .branch hc hy hn => exact (hc.pinsIn.append hy.pinsIn.withScope).append hn.pinsIn
  | .whileLoop hc hb =>
    simp only [Typed.Stmt.exprs, Typed.exprsOfStmt?, List.append_nil, List.nil_append]
    exact hc.pinsIn.append hb.pinsIn.of_withScope
  | .forLoop hs hc hb hp =>
    exact ((hs.pinsIn.append hc.pinsIn).append hb.pinsIn.of_withScope).append hp.pinsIn.of_withScope
  | .returnFixed _ _ hv _ _ _ => exact hv.pinsIn
  | .returnInferred _ _ hv _ _ _ => exact hv.pinsIn
  | .print hv => exact hv.pinsIn
  | .block hb => exact hb.pinsIn
  | .expression hv => exact hv.pinsIn
  | .call _ ha => exact ha.pinsIn

theorem StmtRun?.pinsIn {stmt : Option Stmt} {s s' : Checker} {t : Option Typed.Stmt}
    (h : StmtRun? stmt s t s') : s.PinsIn s' (Typed.exprsOfStmt? t) := by
  match h with
  | .missing => exact .of_log rfl
  | .present h => exact h.pinsIn

theorem StmtsRun.pinsIn {stmts : List Stmt} {s s' : Checker} {ts : List Typed.Stmt}
    (h : StmtsRun stmts s ts s') : s.PinsIn s' (Typed.exprsOfStmts ts) := by
  match h with
  | .nil => exact .of_log rfl
  | .cons h hs => exact h.pinsIn.append hs.pinsIn

end

/-- Some value that is returned contains a call of `f` for a value of type `t`. -/
def Typed.ReturnsCall (f : String) (t : NumType) (parts : List Typed.Stmt) : Prop :=
  ∃ value span, .returnValue (some value) span ∈ parts ∧ ∃ x ∈ value.parts, x.IsCall f t

theorem Typed.ReturnsCall.mono {f : String} {t : NumType} {xs ys : List Typed.Stmt}
    (h : ReturnsCall f t xs) (hs : ∀ x ∈ xs, x ∈ ys) : ReturnsCall f t ys := by
  obtain ⟨value, span, hmem, hcall⟩ := h
  exact ⟨value, span, hs _ hmem, hcall⟩

section PinsHold

variable {f : String} {E : NumType → Prop}

theorem ExprRun.pinsHold {e : Expr} {hint : Option NumType} {s s' : Checker} {t : Typed.Expr}
    (h : ExprRun e hint s t s') (hp : s.PinsHold f E) : s'.PinsHold f E :=
  (h.steps (N := fun _ => True) fun _ _ => trivial).pinsHold hp

theorem Checker.PinsHold.declared {s : Checker} (hp : s.PinsHold f E) (name : String)
    (type : NumType) (fixed : Bool) : (s.declared name type fixed).PinsHold f E :=
  (Step.declare (N := fun _ => True) trivial).pinsHold hp

mutual

/-- A pin that a body does not keep comes from the value of one of its returns: any other return finds
the result fixed. -/
theorem StmtRun.pinsHold {stmt : Stmt} {s s' : Checker} {t : Typed.Stmt} (h : StmtRun stmt s t s')
    (hE : ∀ u, Typed.ReturnsCall f u t.parts → E u) (hp : s.PinsHold f E) : s'.PinsHold f E := by
  match h with
  | .declare => exact hp.declared _ _ _
  | .declareValue hv _ => exact (hv.pinsHold hp).declared _ _ _
  | .breakLoop _ | .continueLoop _ | .returnBare _ _ _ => exact hp
  | .assign ha => exact (ha.steps (N := fun _ => True) trivial fun _ _ => trivial).pinsHold hp
  | .branch hc hy hn =>
    have hy' := hy.pinsHold (fun u hu => hE u (hu.mono (by simp +contextual [Typed.Stmt.parts])))
      (hc.pinsHold hp)
    exact hn.pinsHold (fun u hu => hE u (hu.mono (by simp +contextual [Typed.Stmt.parts]))) hy'
  | .whileLoop hc hb =>
    exact hb.pinsHold (fun u hu => hE u (hu.mono (by simp +contextual [Typed.Stmt.parts])))
      (hc.pinsHold hp)
  | .forLoop hs hc hb hp' =>
    have hs' := hs.pinsHold (fun u hu => hE u (hu.mono (by simp +contextual [Typed.Stmt.parts]))) hp
    have hc' := (hc.steps (N := fun _ => True) fun _ _ => trivial).pinsHold hs'
    have hb' := hb.pinsHold (fun u hu => hE u (hu.mono (by simp +contextual [Typed.Stmt.parts]))) hc'
    exact hp'.pinsHold (fun u hu => hE u (hu.mono (by simp +contextual [Typed.Stmt.parts]))) hb'
  | .returnFixed _ _ hv _ _ _ => exact hv.pinsHold hp
  | .returnInferred (f := g) _ hs hv _ hx _ =>
    intro u hu
    by_cases hn : f = g
    · subst hn
      left
      obtain hu | hcall := hv.pinsIn f u hu
      · obtain hu | ⟨found, hfound, hfixed, -⟩ := hp u hu
        · exact hu
        · rw [hs] at hfound
          cases hfound
          cases hx.symm.trans hfixed
      · exact hE u ⟨_, _, List.mem_singleton.mpr rfl, hcall⟩
    · exact (hv.pinsHold hp u hu).imp_right fun hfixed => hfixed.of_insert hn rfl
  | .print hv => exact hv.pinsHold hp
  | .block hb =>
    exact hb.pinsHold (fun u hu => hE u (hu.mono (by simp +contextual [Typed.Stmt.parts]))) hp
  | .expression hv => exact hv.pinsHold hp
  | .call _ ha => exact (ha.steps (N := fun _ => True) fun _ _ => trivial).pinsHold hp

theorem StmtRun?.pinsHold {stmt : Option Stmt} {s s' : Checker} {t : Option Typed.Stmt}
    (h : StmtRun? stmt s t s') (hE : ∀ u, Typed.ReturnsCall f u (Typed.partsOfStmt? t) → E u)
    (hp : s.PinsHold f E) : s'.PinsHold f E := by
  match h with
  | .missing => exact hp
  | .present h => exact h.pinsHold hE hp

theorem StmtsRun.pinsHold {stmts : List Stmt} {s s' : Checker} {ts : List Typed.Stmt}
    (h : StmtsRun stmts s ts s') (hE : ∀ u, Typed.ReturnsCall f u (Typed.partsOfStmts ts) → E u)
    (hp : s.PinsHold f E) : s'.PinsHold f E := by
  match h with
  | .nil => exact hp
  | .cons h hs =>
    have h' := h.pinsHold (fun u hu => hE u (hu.mono fun x hx => List.mem_append_left _ hx)) hp
    exact hs.pinsHold (fun u hu => hE u (hu.mono fun x hx => List.mem_append_right _ hx)) h'

end

end PinsHold

end Numlet
