import Numlet.Proofs.Code.Conversions
import Numlet.Proofs.Code.Validation

/-!
The code of a sound tree is well typed where its calls have the types of their callees. An expression
leaves one value of its type on the stack, and a statement leaves the stack as it is.
-/
namespace Numlet
open Typed (Context)

namespace CodeContext

/-- The locals and the result of a body, as its code has them. -/
structure Backs (k : CodeContext) (c : Context) : Prop where
  slotType : ∀ x t, c.storage x = some t → c.slotType x = t
  locals : ∀ x t, c.storage x = some t → k.localType x = some t
  result : k.result = c.result

/-- What the code of one expression needs apart from soundness. -/
def ExprTyped (k : CodeContext) : Typed.Expr → Prop
  | .literal value t _ => value.FitsIn t
  | .convert _ source target _ _ => (source.isFloat && target.isInteger) = false
  | .call callee _ parameterTypes _ t _ =>
    k.signature (Host.resolve callee) = some (parameterTypes, some t)
  | .var .. | .binary .. | .unary .. | .update .. | .assign .. => True

/-- What the code of one statement needs apart from soundness. -/
def StmtTyped (k : CodeContext) (c : Context) : Typed.Stmt → Prop
  | .print value _ =>
    k.signature (Host.resolve (Host.print value.type).name) = some ([value.type], none)
  | .call callee _ parameterTypes _ =>
    k.signature (Host.resolve callee) = some (parameterTypes, c.resultOf callee)
  | .declare .. | .assign .. | .branch .. | .loop .. | .breakLoop _ | .continueLoop _
  | .returnValue .. | .block .. | .expression _ => True

variable {k : CodeContext} {c : Context} {labels : List Label} {s : List NumType}

theorem coerceNodes_validates {source target : NumType}
    (h : (source.isFloat && target.isInteger) = false) :
    k.Validates labels (coerceNodes source target) (source :: s) (target :: s) := by
  cases source <;> cases target <;>
    first
    | exact .nil
    | exact .single .convert
    | cases h

theorem not_refused_of_rank_le {source target : NumType} (h : source.rank ≤ target.rank) :
    (source.isFloat && target.isInteger) = false := by
  revert h
  cases source <;> cases target <;> decide

theorem widenNodes_validates {source target : NumType} (h : source.rank ≤ target.rank) :
    k.Validates labels (coerceNodes source target) (source :: s) (target :: s) :=
  coerceNodes_validates (not_refused_of_rank_le h)

theorem fitsIn_small {n : Int} (h : n = -1 ∨ n = 0 ∨ n = 1) (t : NumType) :
    (Literal.int n).FitsIn t := by
  cases t <;> simp only [Literal.FitsIn] <;> omega

theorem truthNodes_validates (t : NumType) :
    k.Validates labels (truthNodes t) (t :: s) (.i32 :: s) :=
  .plain (.const (fitsIn_small (by omega) t)) (.single (.numeric nofun))

theorem conditionNodes_validates (t : NumType) :
    k.Validates labels (conditionNodes t) (t :: s) (.i32 :: s) := by
  unfold conditionNodes
  split
  · next h => exact h ▸ .nil
  · exact truthNodes_validates t

theorem unaryNodes_validates (op : UnaryOp) (t : NumType) :
    k.Validates labels (unaryNodes op t) (t :: s) ((if op = .not then .i32 else t) :: s) := by
  cases op with
  | plus => exact .nil
  | negate =>
    exact .plain (.const (fitsIn_small (by omega) t)) (.single (.numeric nofun))
  | not =>
    unfold unaryNodes
    cases ht : t.isInteger with
    | true => exact .single (.eqz ht)
    | false =>
      exact .plain (.const (fitsIn_small (by omega) t)) (.single (.numeric nofun))

/-- An operation that is not logical is one instruction. -/
theorem numericNodes_eq {op : BinaryOp} {l r ot t : NumType} (hop : op.isLogical = false)
    (h : op.Types l r ot t) : ∃ n, numericNodes op ot = [.plain (.numeric n ot) rfl] ∧
      (n = .rem → ot.isInteger = true) ∧ n.resultType ot = t := by
  rw [BinaryOp.Types, hop, if_neg (by simp)] at h
  obtain ⟨-, hrem, rfl⟩ := h
  cases op with
  | and | or => cases hop
  | remainder =>
    have hfloat := hrem rfl
    refine ⟨.rem, by rw [numericNodes, NumericOp.ofBinary?, hfloat]; rfl, fun _ => ?_, rfl⟩
    revert hfloat
    cases ot <;> decide
  | add | subtract | multiply | divide | equals | notEquals | less | lessEquals | greater
  | greaterEquals =>
    refine ⟨_, rfl, fun h => ?_, rfl⟩
    cases h

theorem numericNodes_validates {op : BinaryOp} {l r ot t : NumType} (hop : op.isLogical = false)
    (h : op.Types l r ot t) : k.Validates labels (numericNodes op ot) (ot :: ot :: s) (t :: s) := by
  obtain ⟨n, hn, hint, rfl⟩ := numericNodes_eq hop h
  rw [hn]
  exact .single (.numeric hint)

theorem callNodes_validates {callee : String} {ts : List NumType} {r : Option NumType}
    (h : k.signature (Host.resolve callee) = some (ts, r)) :
    k.Validates labels (callNodes callee) (ts.reverse ++ s) (r.toList ++ s) := .single (.call h)

theorem Backs.loadNodes_validates (hk : k.Backs c) {x : String} {t : NumType}
    (hx : c.storage x = some t) : k.Validates labels (c.loadNodes x t) s (t :: s) := by
  rw [Context.loadNodes, hk.slotType x t hx]
  exact .plain (.getLocal (hk.locals x t hx)) (widenNodes_validates (Nat.le_refl _))

theorem Backs.storeNodes_validates (hk : k.Backs c) {x : String} {t source : NumType}
    (hx : c.storage x = some t) (hle : source.rank ≤ t.rank) :
    k.Validates labels (c.storeNodes x source) (source :: s) s := by
  rw [Context.storeNodes, hk.slotType x t hx]
  exact (widenNodes_validates hle).append (.single (.setLocal (hk.locals x t hx)))

theorem Backs.updateNodes_validates (hk : k.Backs c) {x : String} {t : NumType} (op : UpdateOp)
    (hx : c.storage x = some t) : k.Validates labels (c.updateNodes op x t) s (t :: s) := by
  have hnumeric : k.Validates labels
      [.plain (.const t (.int 1)) rfl, .plain (.numeric op.numeric t) rfl] (t :: t :: s) (t :: t :: s) := by
    cases op with
    | increment | decrement =>
      exact .plain (.const (fitsIn_small (by omega) t)) (.single (.numeric nofun))
  exact (((hk.loadNodes_validates hx).append (hk.loadNodes_validates hx)).append hnumeric).append
    (hk.storeNodes_validates hx (Nat.le_refl _))

mutual

/-- The code of an expression leaves a value of its type. -/
theorem exprNodes_validates (e : Typed.Expr) {labels : List Label} {s : List NumType}
    (hk : k.Backs c) (he : c.Sound e) (ht : ∀ x ∈ e.parts, k.ExprTyped x) :
    k.Validates labels (c.exprNodes e) s (e.type :: s) := by
  match e with
  | .literal value t span => exact .single (.const (ht _ (List.mem_singleton.mpr rfl)))
  | .var x t span => exact hk.loadNodes_validates (he _ (List.mem_singleton.mpr rfl))
  | .update op x t span => exact hk.updateNodes_validates op (he _ (List.mem_singleton.mpr rfl))
  | .unary op operand t span =>
    simp only [Typed.Expr.parts, List.forall_mem_append] at ht
    obtain ⟨hoperand, rfl⟩ := he.unary
    exact (exprNodes_validates operand hk hoperand ht.1).append (unaryNodes_validates op operand.type)
  | .convert operand source target t span =>
    simp only [Typed.Expr.parts, List.forall_mem_append, List.forall_mem_singleton] at ht
    obtain ⟨hoperand, rfl, rfl⟩ := he.convert
    exact (exprNodes_validates operand hk hoperand ht.1).append (coerceNodes_validates ht.2)
  | .assign x value t span =>
    simp only [Typed.Expr.parts, List.forall_mem_append] at ht
    obtain ⟨hvalue, hx, hle⟩ := he.assign
    exact ((exprNodes_validates value hk hvalue ht.1).append (hk.storeNodes_validates hx hle)).append
      (hk.loadNodes_validates hx)
  | .call callee arguments types callSpan t span =>
    simp only [Typed.Expr.parts, List.forall_mem_append, List.forall_mem_singleton] at ht
    obtain ⟨hargs, -, hfits⟩ := he.call
    exact (argumentNodes_validates arguments types hk hargs hfits ht.1).append
      (callNodes_validates ht.2)
  | .binary op l r ot t span =>
    simp only [Typed.Expr.parts, List.forall_mem_append] at ht
    obtain ⟨hl, hr, htypes⟩ := he.binary
    rw [Context.exprNodes]
    split
    · next hop =>
      subst hop
      have ht' : t = .i32 := htypes.2
      subst ht'
      exact ((exprNodes_validates l hk hl ht.1.1).append (conditionNodes_validates l.type)).append
        (.cond ((exprNodes_validates r hk hr ht.1.2).append (truthNodes_validates r.type))
          (.single (.const (fitsIn_small (by omega) _))) .nil)
    · split
      · next hop =>
        subst hop
        have ht' : t = .i32 := htypes.2
        subst ht'
        exact ((exprNodes_validates l hk hl ht.1.1).append (conditionNodes_validates l.type)).append
          (.cond (.single (.const (fitsIn_small (by omega) _)))
            ((exprNodes_validates r hk hr ht.1.2).append (truthNodes_validates r.type)) .nil)
      · next hand hor =>
        have hop := BinaryOp.isLogical_eq_false hand hor
        obtain ⟨hleft, hright⟩ := htypes.rank_le hop
        exact ((((exprNodes_validates l hk hl ht.1.1).append (widenNodes_validates hleft)).append
          (exprNodes_validates r hk hr ht.1.2)).append (widenNodes_validates hright)).append
            (numericNodes_validates hop htypes)

theorem argumentNodes_validates (es : List Typed.Expr) (ts : List NumType) {labels : List Label}
    {s : List NumType} (hk : k.Backs c) (he : ∀ x ∈ Typed.partsOfExprs es, c.ExprOk x) (hfits : Typed.Fits es ts)
    (ht : ∀ x ∈ Typed.partsOfExprs es, k.ExprTyped x) :
    k.Validates labels (c.argumentNodes es ts) s (ts.reverse ++ s) := by
  match es, ts, hfits with
  | [], [], _ => exact .nil
  | e :: es, t :: ts, .cons hle hfits =>
    simp only [Typed.partsOfExprs, List.forall_mem_append] at he ht
    rw [List.reverse_cons, List.append_assoc]
    exact ((exprNodes_validates e hk he.1 ht.1).append (widenNodes_validates hle)).append
      (argumentNodes_validates es ts hk he.2 hfits ht.2)

end

theorem returnNodes_validates {value : Option Typed.Expr} {span : Span} (s' : List NumType)
    (hk : k.Backs c) (he : ∀ x ∈ Typed.partsOfExpr? value, c.ExprOk x)
    (hs : c.StmtOk (.returnValue value span))
    (ht : ∀ x ∈ Typed.partsOfExpr? value, k.ExprTyped x) :
    k.Validates labels (c.returnNodes value) s s' := by
  cases value with
  | none =>
    have hret : k.Plain labels .ret (k.result.toList ++ s) s' := .ret
    rw [hk.result, show c.result = none from hs] at hret
    exact .single hret
  | some value =>
    obtain ⟨r, hr, hle⟩ := hs
    have hret : k.Plain labels .ret (k.result.toList ++ s) s' := .ret
    rw [hk.result, hr] at hret
    rw [Context.returnNodes, hr]
    exact ((exprNodes_validates value hk he ht).append (widenNodes_validates hle)).append (.single hret)

theorem testNodes_validates {e : Option Typed.Expr} {label : Nat} (hk : k.Backs c)
    (he : ∀ x ∈ Typed.partsOfExpr? e, c.ExprOk x) (ht : ∀ x ∈ Typed.partsOfExpr? e, k.ExprTyped x)
    (hlabel : .exit label ∈ labels) : k.Validates labels (c.testNodes label e) s s := by
  cases e with
  | none => exact .nil
  | some e =>
    exact ((exprNodes_validates e hk he ht).append (conditionNodes_validates e.type)).append
      (.plain (.eqz rfl) (.single (.brIf hlabel)))

/-- The frame of a loop around its test, its body and its step. -/
theorem loop_validates {n : Nat} {test body step : List Node}
    (ht : k.Validates (.head n :: .exit n :: labels) test [] [])
    (hb : k.Validates (.next n :: .head n :: .exit n :: labels) body [] [])
    (hs : k.Validates (.head n :: .exit n :: labels) step [] []) :
    k.Validates labels [.block (.exit n) [.loop (.head n)
      (test ++ [.block (.next n) body] ++ step ++ [.plain (.br (.head n)) rfl])]] s s :=
  .block (.loop (((ht.append (.block hb .nil)).append hs).append
    (.single (.br List.mem_cons_self))) .nil) .nil

/-- The labels that a break and a continue jump to. -/
def Encloses (labels : List Label) (inLoop : Bool) (inner : Nat) : Prop :=
  inLoop = true → .exit inner ∈ labels ∧ .next inner ∈ labels

theorem Encloses.cons {inLoop : Bool} {inner : Nat} (h : Encloses labels inLoop inner) (l : Label) :
    Encloses (l :: labels) inLoop inner :=
  fun hin => ⟨List.mem_cons_of_mem _ (h hin).1, List.mem_cons_of_mem _ (h hin).2⟩

theorem encloses_body (labels : List Label) (n : Nat) :
    Encloses (.next n :: .head n :: .exit n :: labels) true n := fun _ => by simp

mutual

/-- The code of a statement leaves the stack as it is. -/
theorem stmtNodes_validates (st : Typed.Stmt) {inLoop : Bool} {inner next : Nat}
    {labels : List Label} {s : List NumType} (hk : k.Backs c) (hs : c.SoundStmt inLoop st)
    (he : ∀ x ∈ st.exprs, k.ExprTyped x) (hp : ∀ x ∈ st.parts, k.StmtTyped c x)
    (hl : Encloses labels inLoop inner) :
    k.Validates labels (c.stmtNodes inner next st) s s := by
  match st with
  | .declare x none t span =>
    obtain ⟨⟨u, hu, hle⟩, -⟩ := hs.self
    exact .plain (.const (fitsIn_small (by omega) t)) (hk.storeNodes_validates hu hle)
  | .declare x (some value) t span =>
    obtain ⟨-, hvalue⟩ := hs.self
    obtain ⟨u, hu, hle⟩ := hvalue value rfl
    exact (exprNodes_validates value hk hs.exprs he).append (hk.storeNodes_validates hu hle)
  | .assign x value span =>
    obtain ⟨u, hu, hle⟩ := hs.self
    exact (exprNodes_validates value hk hs.exprs he).append (hk.storeNodes_validates hu hle)
  | .branch e yes no span =>
    obtain ⟨hcond, hyes, hno⟩ := hs.branch
    simp only [Typed.Stmt.exprs, Typed.Stmt.parts, List.forall_mem_append] at he hp
    have hcode : k.Validates labels (c.exprNodes e ++ conditionNodes e.type) s (.i32 :: s) :=
      (exprNodes_validates e hk hcond he.1.1).append (conditionNodes_validates e.type)
    have hfirst : k.Validates labels (c.stmtNodes inner next yes) [] [] :=
      stmtNodes_validates yes hk hyes he.1.2 hp.1.1 hl
    refine hcode.append ?_
    match no with
    | none => exact .condYes hfirst .nil
    | some no =>
      rw [Context.elseNodes]
      split
      · exact .condYes hfirst .nil
      · exact .cond (r := none) hfirst (stmtNodes_validates no hk hno.some he.2 hp.1.2 hl) .nil
  | .loop start e body step span =>
    obtain ⟨hstart, hcond, hbody, hstep⟩ := hs.loop
    simp only [Typed.Stmt.exprs, Typed.Stmt.parts, List.forall_mem_append] at he hp
    refine (stmtNodes?_validates start hk hstart he.1.1.1 hp.1.1.1 hl).append ?_
    apply loop_validates
    · exact testNodes_validates hk hcond he.1.1.2 (List.mem_cons_of_mem _ List.mem_cons_self)
    · exact stmtNodes_validates body hk hbody he.1.2 hp.1.1.2 (encloses_body labels _)
    · exact stmtNodes?_validates step hk hstep he.2 hp.1.2 ((hl.cons _).cons _)
  | .breakLoop span => exact .single (.br (hl hs.jumps).1)
  | .continueLoop span => exact .single (.br (hl hs.jumps).2)
  | .returnValue value span => exact returnNodes_validates s hk hs.exprs hs.self he
  | .print value span =>
    have hcall := hp _ (List.mem_singleton.mpr rfl)
    exact (exprNodes_validates value hk hs.exprs he).append (callNodes_validates hcall)
  | .block body span =>
    simp only [Typed.Stmt.parts, List.forall_mem_append] at hp
    exact stmtsNodes_validates body hk hs.block he hp.1 hl
  | .expression value => exact (exprNodes_validates value hk hs.exprs he).append (.single .drop)
  | .call callee arguments types span =>
    obtain ⟨-, hfits⟩ := hs.self
    have hcall : k.signature (Host.resolve callee) = some (types, c.resultOf callee) :=
      hp _ (List.mem_singleton.mpr rfl)
    refine ((argumentNodes_validates arguments types hk hs.exprs hfits he).append
      (callNodes_validates hcall)).append ?_
    cases c.resultOf callee with
    | none => exact .nil
    | some r => exact .single .drop

theorem stmtNodes?_validates (st : Option Typed.Stmt) {inLoop : Bool} {inner next : Nat}
    {labels : List Label} {s : List NumType} (hk : k.Backs c) (hs : c.SoundStmt? inLoop st)
    (he : ∀ x ∈ Typed.exprsOfStmt? st, k.ExprTyped x)
    (hp : ∀ x ∈ Typed.partsOfStmt? st, k.StmtTyped c x) (hl : Encloses labels inLoop inner) :
    k.Validates labels (c.stmtNodes? inner next st) s s := by
  match st with
  | none => exact .nil
  | some st => exact stmtNodes_validates st hk hs.some he hp hl

theorem stmtsNodes_validates (sts : List Typed.Stmt) {inLoop : Bool} {inner next : Nat}
    {labels : List Label} {s : List NumType} (hk : k.Backs c) (hs : c.SoundStmts inLoop sts)
    (he : ∀ x ∈ Typed.exprsOfStmts sts, k.ExprTyped x)
    (hp : ∀ x ∈ Typed.partsOfStmts sts, k.StmtTyped c x) (hl : Encloses labels inLoop inner) :
    k.Validates labels (c.stmtsNodes inner next sts) s s := by
  match sts with
  | [] => exact .nil
  | st :: sts =>
    simp only [Typed.exprsOfStmts, Typed.partsOfStmts, List.forall_mem_append] at he hp
    exact (stmtNodes_validates st hk hs.cons.1 he.1 hp.1 hl).append
      (stmtsNodes_validates sts hk hs.cons.2 he.2 hp.2 hl)

end

/-- Statements of which the last one returns can leave any stack behind. -/
theorem returningNodes_validates (sts : List Typed.Stmt) {inLoop : Bool} {inner next : Nat}
    {s : List NumType} (s' : List NumType) (hk : k.Backs c) (hs : c.SoundStmts inLoop sts)
    (he : ∀ x ∈ Typed.exprsOfStmts sts, k.ExprTyped x)
    (hp : ∀ x ∈ Typed.partsOfStmts sts, k.StmtTyped c x) (hl : Encloses labels inLoop inner)
    (hlast : sts.getLast?.any Typed.Stmt.isReturn = true) :
    k.Validates labels (c.stmtsNodes inner next sts) s s' := by
  induction sts generalizing next s with
  | nil => cases hlast
  | cons st rest ih =>
    simp only [Typed.exprsOfStmts, Typed.partsOfStmts, List.forall_mem_append] at he hp
    cases rest with
    | nil =>
      cases st with
      | returnValue value span =>
        exact (returnNodes_validates s' hk hs.cons.1.exprs hs.cons.1.self he.1).append .nil
      | declare | assign | branch | loop | breakLoop | continueLoop | print | block | expression | call =>
        cases hlast
    | cons second rest =>
      exact (stmtNodes_validates st hk hs.cons.1 he.1 hp.1 hl).append
        (ih hs.cons.2 he.2 hp.2 (by simpa using hlast))

/-- The code of a function ends with an empty stack, or does not get to its end. -/
theorem nodes_validates {f : Typed.Function} {p : Typed.Program} (hk : k.Backs (f.context p))
    (hs : (f.context p).SoundStmts false f.body)
    (he : ∀ x ∈ Typed.exprsOfStmts f.body, k.ExprTyped x)
    (hp : ∀ x ∈ Typed.partsOfStmts f.body, k.StmtTyped (f.context p) x) :
    match f.result with
    | none => k.Validates [] (f.nodes p) [] []
    | some _ => ∀ s, k.Validates [] (f.nodes p) [] s := by
  have hl : Encloses [] false 0 := fun h => (nomatch h)
  unfold Typed.Function.nodes Typed.Function.endNodes
  cases f.result with
  | none => exact (stmtsNodes_validates f.body hk hs he hp hl).append .nil
  | some r =>
    intro s
    cases hlast : f.body.getLast?.any Typed.Stmt.isReturn with
    | true => exact (returningNodes_validates f.body s hk hs he hp hl hlast).append .nil
    | false => exact (stmtsNodes_validates f.body hk hs he hp hl).append (.single .unreachable)

end CodeContext

end Numlet
