import Numlet.Proofs.Code.Typing

/-!
What well typed code says about the calls in it. Wherever a value is used at its type, every call that it
is made of has the result of its callee. A value that is dropped can have any type; one that is returned
is used at the result of the function.
-/
namespace Numlet
open Typed (Context)

/-- A call has the signature of its callee. -/
def Typed.Context.CallFits (c : Context) : Typed.Expr → Prop
  | .call callee _ parameterTypes _ t _ => c.signature callee = some (parameterTypes, some t)
  | .literal .. | .var .. | .binary .. | .unary .. | .update .. | .assign .. | .convert .. => True

namespace CodeContext

variable {k : CodeContext} {c : Context} {labels : List Label} {s s' : List NumType}

/-- A call in code finds the signature of its callee, and a written conversion is possible. -/
def Linked (k : CodeContext) (c : Context) : Typed.Expr → Prop
  | .call callee _ _ _ _ _ => k.signature (Host.resolve callee) = c.signature callee
  | .convert _ source target _ _ => (source.isFloat && target.isInteger) = false
  | .literal .. | .var .. | .binary .. | .unary .. | .update .. | .assign .. => True

theorem coerceNodes_forced {source target u : NumType}
    (hc : (source.isFloat && target.isInteger) = false)
    (h : k.Validates labels (coerceNodes source target) (u :: s) s') :
    ∃ v, s' = v :: s ∧ (v = target → u = source) := by
  unfold coerceNodes at h
  split at h
  · next heq =>
    cases h
    exact ⟨u, rfl, fun hu => hu.trans heq.symm⟩
  · next hne =>
    cases hb : Conversion.between? source target with
    | none =>
      exfalso
      revert hb hc hne
      cases source <;> cases target <;> decide
    | some conversion =>
      rw [hb] at h
      have hsource : conversion.source = source ∧ conversion.target = target := by
        simpa using List.find?_some hb
      cases h.of_single
      exact ⟨_, rfl, fun _ => hsource.1⟩

theorem truthNodes_forced {t u : NumType} (h : k.Validates labels (truthNodes t) (u :: s) s') :
    u = t ∧ s' = .i32 :: s := by
  cases h with
  | plain hconst hrest =>
    cases hconst
    cases hrest.of_single
    exact ⟨rfl, rfl⟩

theorem conditionNodes_forced {t u : NumType}
    (h : k.Validates labels (conditionNodes t) (u :: s) s') :
    ∃ v, s' = v :: s ∧ (v = .i32 → u = t) := by
  unfold conditionNodes at h
  split at h
  · next ht =>
    cases h
    exact ⟨u, rfl, fun hu => hu.trans ht.symm⟩
  · obtain ⟨hu, hs⟩ := truthNodes_forced h
    exact ⟨.i32, hs, fun _ => hu⟩

theorem unaryNodes_forced {op : UnaryOp} {t u : NumType}
    (h : k.Validates labels (unaryNodes op t) (u :: s) s') :
    ∃ v, s' = v :: s ∧ (v = (if op = .not then .i32 else t) → u = t) := by
  cases op with
  | plus =>
    cases h
    exact ⟨u, rfl, id⟩
  | negate =>
    cases h with
    | plain hconst hrest =>
      cases hconst
      cases hrest.of_single
      exact ⟨_, rfl, fun _ => rfl⟩
  | not =>
    unfold unaryNodes at h
    cases ht : t.isInteger with
    | true =>
      rw [ht] at h
      cases h.of_single
      exact ⟨_, rfl, fun _ => rfl⟩
    | false =>
      rw [ht] at h
      cases h with
      | plain hconst hrest =>
        cases hconst
        cases hrest.of_single
        exact ⟨_, rfl, fun _ => rfl⟩

theorem numericNodes_forced {op : BinaryOp} {l r ot t u v : NumType} (hop : op.isLogical = false)
    (ht : op.Types l r ot t) (h : k.Validates labels (numericNodes op ot) (u :: v :: s) s') :
    u = ot ∧ v = ot ∧ s' = t :: s := by
  obtain ⟨n, hn, -, rfl⟩ := numericNodes_eq hop ht
  rw [hn] at h
  cases h.of_single
  exact ⟨rfl, rfl, rfl⟩

theorem callNodes_forced {callee : String} (h : k.Validates labels (callNodes callee) s s') :
    ∃ ts r s₀, k.signature (Host.resolve callee) = some (ts, r) ∧ s = ts.reverse ++ s₀ ∧
      s' = r.toList ++ s₀ := by
  cases h.of_single with
  | call hs => exact ⟨_, _, _, hs, rfl, rfl⟩

mutual

/-- The code of an expression leaves one value. If the value has the type of the expression, so has every
call in it. -/
theorem exprNodes_forced (e : Typed.Expr) {labels : List Label} {s s' : List NumType}
    (hempty : ∀ x, c.storage x = none) (he : c.Sound e) (hk : ∀ x ∈ e.parts, k.Linked c x)
    (h : k.Validates labels (c.exprNodes e) s s') :
    ∃ t, s' = t :: s ∧ (t = e.type → ∀ x ∈ e.parts, c.CallFits x) := by
  match e with
  | .literal value t span =>
    cases h.of_single
    exact ⟨t, rfl, fun _ => List.forall_mem_singleton.mpr trivial⟩
  | .var x t span | .update op x t span =>
    have hx : c.storage x = some t := he _ (List.mem_singleton.mpr rfl)
    cases (hempty x).symm.trans hx
  | .assign x value t span => cases (hempty x).symm.trans he.assign.2.1
  | .unary op operand t span =>
    obtain ⟨hoperand, rfl⟩ := he.unary
    simp only [Typed.Expr.parts, List.forall_mem_append, List.forall_mem_singleton] at hk ⊢
    obtain ⟨s₁, h₁, h₂⟩ := h.of_append
    obtain ⟨u, rfl, hu⟩ := exprNodes_forced operand hempty hoperand hk.1 h₁
    obtain ⟨v, rfl, hv⟩ := unaryNodes_forced h₂
    exact ⟨v, rfl, fun ht => ⟨hu (hv ht), trivial⟩⟩
  | .convert operand source target t span =>
    obtain ⟨hoperand, rfl, rfl⟩ := he.convert
    simp only [Typed.Expr.parts, List.forall_mem_append, List.forall_mem_singleton] at hk ⊢
    obtain ⟨s₁, h₁, h₂⟩ := h.of_append
    obtain ⟨u, rfl, hu⟩ := exprNodes_forced operand hempty hoperand hk.1 h₁
    obtain ⟨v, rfl, hv⟩ := coerceNodes_forced hk.2 h₂
    exact ⟨v, rfl, fun ht => ⟨hu (hv ht), trivial⟩⟩
  | .call callee arguments types callSpan t span =>
    obtain ⟨hargs, ⟨r, hr⟩, hfits⟩ := he.call
    simp only [Typed.Expr.parts, List.forall_mem_append, List.forall_mem_singleton] at hk ⊢
    obtain ⟨s₁, h₁, h₂⟩ := h.of_append
    obtain ⟨us, hlen, rfl, hus⟩ := argumentNodes_forced arguments types hempty hargs hfits hk.1 h₁
    obtain ⟨ts, r', s₀, hsig, hs₀, rfl⟩ := callNodes_forced h₂
    cases hsig.symm.trans (hk.2.trans hr)
    obtain ⟨hsame, rfl⟩ := List.append_inj hs₀ (by simpa using hlen)
    refine ⟨r, rfl, fun ht => ⟨hus (List.reverse_injective hsame), ?_⟩⟩
    exact hr.trans (by rw [ht]; rfl)
  | .binary op l r ot t span =>
    obtain ⟨hl, hr, htypes⟩ := he.binary
    simp only [Typed.Expr.parts, List.forall_mem_append, List.forall_mem_singleton] at hk ⊢
    rw [Context.exprNodes] at h
    split at h
    · obtain ⟨s₁, h₁, h₂⟩ := h.of_append
      obtain ⟨s₂, h₁, h₃⟩ := h₁.of_append
      obtain ⟨u, rfl, hu⟩ := exprNodes_forced l hempty hl hk.1.1 h₁
      obtain ⟨v, rfl, hv⟩ := conditionNodes_forced h₃
      cases h₂ with
      | cond hyes hno hs =>
        cases hs
        obtain ⟨s₃, h₄, h₅⟩ := hyes.of_append
        obtain ⟨w, rfl, hw⟩ := exprNodes_forced r hempty hr hk.1.2 h₄
        exact ⟨.i32, rfl, fun _ => ⟨⟨hu (hv rfl), hw (truthNodes_forced h₅).1⟩, trivial⟩⟩
    · split at h
      · obtain ⟨s₁, h₁, h₂⟩ := h.of_append
        obtain ⟨s₂, h₁, h₃⟩ := h₁.of_append
        obtain ⟨u, rfl, hu⟩ := exprNodes_forced l hempty hl hk.1.1 h₁
        obtain ⟨v, rfl, hv⟩ := conditionNodes_forced h₃
        cases h₂ with
        | cond hyes hno hs =>
          cases hs
          obtain ⟨s₃, h₄, h₅⟩ := hno.of_append
          obtain ⟨w, rfl, hw⟩ := exprNodes_forced r hempty hr hk.1.2 h₄
          exact ⟨.i32, rfl, fun _ => ⟨⟨hu (hv rfl), hw (truthNodes_forced h₅).1⟩, trivial⟩⟩
      · next hand hor =>
        have hop := BinaryOp.isLogical_eq_false hand hor
        obtain ⟨hleft, hright⟩ := htypes.rank_le hop
        obtain ⟨s₁, h, h₅⟩ := h.of_append
        obtain ⟨s₂, h, h₄⟩ := h.of_append
        obtain ⟨s₃, h, h₃⟩ := h.of_append
        obtain ⟨s₄, h₁, h₂⟩ := h.of_append
        obtain ⟨u, rfl, hu⟩ := exprNodes_forced l hempty hl hk.1.1 h₁
        obtain ⟨v, rfl, hv⟩ := coerceNodes_forced (not_refused_of_rank_le hleft) h₂
        obtain ⟨w, rfl, hw⟩ := exprNodes_forced r hempty hr hk.1.2 h₃
        obtain ⟨y, rfl, hy⟩ := coerceNodes_forced (not_refused_of_rank_le hright) h₄
        obtain ⟨hyot, hvot, rfl⟩ := numericNodes_forced hop htypes h₅
        exact ⟨t, rfl, fun _ => ⟨⟨hu (hv hvot), hw (hy hyot)⟩, trivial⟩⟩

theorem argumentNodes_forced (es : List Typed.Expr) (ts : List NumType) {labels : List Label}
    {s s' : List NumType} (hempty : ∀ x, c.storage x = none)
    (he : ∀ x ∈ Typed.partsOfExprs es, c.ExprOk x) (hfits : Typed.Fits es ts)
    (hk : ∀ x ∈ Typed.partsOfExprs es, k.Linked c x)
    (h : k.Validates labels (c.argumentNodes es ts) s s') :
    ∃ us, us.length = ts.length ∧ s' = us.reverse ++ s ∧
      (us = ts → ∀ x ∈ Typed.partsOfExprs es, c.CallFits x) := by
  match es, ts, hfits with
  | [], [], _ =>
    cases h
    exact ⟨[], rfl, rfl, fun _ x hx => (nomatch hx)⟩
  | e :: es, t :: ts, .cons hle hfits =>
    simp only [Typed.partsOfExprs, List.forall_mem_append] at he hk ⊢
    obtain ⟨s₁, h, h₃⟩ := h.of_append
    obtain ⟨s₂, h₁, h₂⟩ := h.of_append
    obtain ⟨u, rfl, hu⟩ := exprNodes_forced e hempty he.1 hk.1 h₁
    obtain ⟨v, rfl, hv⟩ := coerceNodes_forced (not_refused_of_rank_le hle) h₂
    obtain ⟨us, hlen, rfl, hus⟩ := argumentNodes_forced es ts hempty he.2 hfits hk.2 h₃
    refine ⟨v :: us, by simp [hlen], by simp, fun hsame => ?_⟩
    obtain ⟨hvt, hust⟩ := List.cons.inj hsame
    exact ⟨hu (hv hvt), hus hust⟩

end

theorem Validates.of_cond {r : Option NumType} {yes : List Node} {no : Option (List Node)}
    (h : k.Validates labels [.cond r yes no] s s') :
    (∃ u v, k.Validates labels yes u v) ∧ ∀ ns, no = some ns → ∃ u v, k.Validates labels ns u v := by
  cases h with
  | cond hy hn _ => exact ⟨⟨_, _, hy⟩, fun ns hns => ⟨_, _, Option.some.inj hns ▸ hn⟩⟩
  | condYes hy _ => exact ⟨⟨_, _, hy⟩, fun ns hns => (nomatch hns)⟩

/-- The code of a return is well typed at some place. -/
def ReturnValidates (k : CodeContext) (c : Context) (st : Typed.Stmt) : Prop :=
  ∀ value span, st = .returnValue value span →
    ∃ labels s s', k.Validates labels (c.returnNodes value) s s'

mutual

/-- In well typed code every return is. -/
theorem returns_validate (st : Typed.Stmt) {labels : List Label} {inner next : Nat}
    {s s' : List NumType} (h : k.Validates labels (c.stmtNodes inner next st) s s') :
    ∀ x ∈ st.parts, k.ReturnValidates c x := by
  match st with
  | .returnValue value span =>
    refine List.forall_mem_singleton.mpr ?_
    rintro _ _ ⟨⟩
    exact ⟨labels, s, s', h⟩
  | .declare .. | .assign .. | .breakLoop _ | .continueLoop _ | .print .. | .expression _ | .call .. =>
    exact List.forall_mem_singleton.mpr fun _ _ h => (nomatch h)
  | .branch e yes no span =>
    simp only [Typed.Stmt.parts, List.forall_mem_append, List.forall_mem_singleton]
    obtain ⟨s₁, -, h⟩ := h.of_append
    obtain ⟨⟨u, v, hyes⟩, hno⟩ := h.of_cond
    exact ⟨⟨returns_validate yes hyes, returns_validate_else no hno⟩, fun _ _ h => (nomatch h)⟩
  | .loop start e body step span =>
    simp only [Typed.Stmt.parts, List.forall_mem_append, List.forall_mem_singleton]
    obtain ⟨s₁, hstart, h⟩ := h.of_append
    cases h with
    | block h _ =>
      cases h with
      | loop h _ =>
        obtain ⟨s₂, h, -⟩ := h.of_append
        obtain ⟨s₃, h, hstep⟩ := h.of_append
        obtain ⟨s₄, -, h⟩ := h.of_append
        cases h with
        | block hbody _ =>
          exact ⟨⟨⟨returns_validate? start hstart, returns_validate body hbody⟩,
            returns_validate? step hstep⟩, fun _ _ h => (nomatch h)⟩
  | .block body span =>
    simp only [Typed.Stmt.parts, List.forall_mem_append, List.forall_mem_singleton]
    exact ⟨returns_validate_all body h, fun _ _ h => (nomatch h)⟩

theorem returns_validate? (st : Option Typed.Stmt) {labels : List Label} {inner next : Nat}
    {s s' : List NumType} (h : k.Validates labels (c.stmtNodes? inner next st) s s') :
    ∀ x ∈ Typed.partsOfStmt? st, k.ReturnValidates c x := by
  match st with
  | none => exact fun x hx => (nomatch hx)
  | some st => exact returns_validate st h

theorem returns_validate_else (st : Option Typed.Stmt) {labels : List Label} {inner next : Nat}
    (h : ∀ ns, c.elseNodes inner next st = some ns → ∃ s s', k.Validates labels ns s s') :
    ∀ x ∈ Typed.partsOfStmt? st, k.ReturnValidates c x := by
  match st with
  | none => exact fun x hx => (nomatch hx)
  | some st =>
    rw [Context.elseNodes] at h
    split at h
    · next hempty =>
      obtain ⟨span, rfl⟩ := Typed.Stmt.isEmptyBlock_iff.mp hempty
      exact List.forall_mem_singleton.mpr fun _ _ h => (nomatch h)
    · obtain ⟨s, s', h⟩ := h _ rfl
      exact returns_validate st h

theorem returns_validate_all (sts : List Typed.Stmt) {labels : List Label} {inner next : Nat}
    {s s' : List NumType} (h : k.Validates labels (c.stmtsNodes inner next sts) s s') :
    ∀ x ∈ Typed.partsOfStmts sts, k.ReturnValidates c x := by
  match sts with
  | [] => exact fun x hx => (nomatch hx)
  | st :: sts =>
    simp only [Typed.partsOfStmts, List.forall_mem_append]
    obtain ⟨s₁, h, hs⟩ := h.of_append
    exact ⟨returns_validate st h, returns_validate_all sts hs⟩

end

theorem Plain.of_ret (h : k.Plain labels .ret s s') : ∃ s₀, s = k.result.toList ++ s₀ := by
  cases h
  exact ⟨_, rfl⟩

/-- In a value that is returned every call has the signature of its callee. -/
theorem returnNodes_forced {value : Typed.Expr} {span : Span} (hempty : ∀ x, c.storage x = none)
    (he : c.Sound value) (hs : c.StmtOk (.returnValue (some value) span)) (hresult : k.result = c.result)
    (hk : ∀ x ∈ value.parts, k.Linked c x)
    (h : k.Validates labels (c.returnNodes (some value)) s s') : ∀ x ∈ value.parts, c.CallFits x := by
  obtain ⟨r, hr, hle⟩ := hs
  rw [Context.returnNodes, hr] at h
  obtain ⟨s₁, h, hret⟩ := h.of_append
  obtain ⟨s₂, h₁, h₂⟩ := h.of_append
  obtain ⟨u, rfl, hu⟩ := exprNodes_forced value hempty he hk h₁
  obtain ⟨v, rfl, hv⟩ := coerceNodes_forced (not_refused_of_rank_le hle) h₂
  obtain ⟨s₀, hs₀⟩ := hret.of_single.of_ret
  rw [hresult, hr] at hs₀
  exact hu (hv (List.cons.inj hs₀).1)

end CodeContext

end Numlet
