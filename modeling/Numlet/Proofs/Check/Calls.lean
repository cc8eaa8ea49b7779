import Numlet.Proofs.Check.Inside
import Numlet.Proofs.Check.Settled

/-!
What calls know of their callees. A call for a value settles the result of its callee at the type that
the call has; that this is the result in the end can fail only where a return sets the result of its own
function although a call in its value has pinned it.
-/
namespace Numlet
open Checking

/-- A call for a value has the parameters and the settled result of its callee. -/
def Typed.Expr.CallSettled (signatures : Table Signature) : Typed.Expr → Prop
  | .call callee arguments parameterTypes _ type _ =>
    ∃ signature, signatures.find? callee = some signature ∧ signature.parameters = parameterTypes ∧
      arguments.length = parameterTypes.length ∧ signature.settled = true ∧
      signature.result = some type
  | _ => True

/-- A call for a value has the parameters of its callee, whose result is settled. -/
def Typed.Expr.CallKnown (signatures : Table Signature) : Typed.Expr → Prop
  | .call callee arguments parameterTypes _ _ _ =>
    ∃ signature, signatures.find? callee = some signature ∧ signature.parameters = parameterTypes ∧
      arguments.length = parameterTypes.length ∧ signature.settled = true ∧
      signature.result.isSome = true
  | _ => True

/-- A call on its own has the parameters of its callee. -/
def Typed.Stmt.CallKnown (signatures : Table Signature) : Typed.Stmt → Prop
  | .call callee arguments parameterTypes _ =>
    ∃ signature, signatures.find? callee = some signature ∧ signature.parameters = parameterTypes ∧
      arguments.length = parameterTypes.length
  | _ => True

theorem ArgumentsRun.length_eq {es : List Expr} {types : List NumType} {s s' : Checker}
    {ts : List Typed.Expr} (h : ArgumentsRun es types s ts s') : ts.length = types.length := by
  match h with
  | .nil => rfl
  | .cons _ _ hs => exact congrArg (· + 1) hs.length_eq

theorem ExprRun.callSettled {e : Expr} {hint : Option NumType} {s s' : Checker} {t : Typed.Expr}
    (h : ExprRun e hint s t s') : t.CallSettled s'.signatures := by
  cases h with
  | literal | var | binary | widened | unary | update | assign | convert => trivial
  | call hs ha hf hc hr =>
    obtain ⟨later, hl, hg⟩ := ha.free.extends.signatures.known _ _ hs
    rw [hf] at hl
    cases hl
    exact ⟨_, hf, hg.parameters, ha.length_eq, hc, hr⟩
  | pinningCall hs ha hf hc =>
    obtain ⟨later, hl, hg⟩ := ha.free.extends.signatures.known _ _ hs
    rw [hf] at hl
    cases hl
    exact ⟨_, Table.find?_insert_self _ _ _, hg.parameters, ha.length_eq, rfl, rfl⟩

theorem Typed.Expr.CallSettled.later {x : Typed.Expr} {s z : Checker}
    (h : x.CallSettled s.signatures) (hz : s.Later z) : x.CallSettled z.signatures := by
  cases x with
  | call callee arguments parameterTypes callSpan type span =>
    obtain ⟨signature, hs, hp, hl, hc, hr⟩ := h
    obtain ⟨later, hlater, hlast⟩ := hz.signatures _ _ hs
    obtain ⟨hc', hr'⟩ := hlast.settled hc
    exact ⟨later, hlater, hlast.parameters.trans hp, hl, hc', hr'.trans hr⟩
  | literal | var | binary | unary | update | assign | convert => trivial

theorem Typed.Expr.CallSettled.known {x : Typed.Expr} {s s' : Checker}
    (h : x.CallSettled s.signatures) (hg : s.Grows s') : x.CallKnown s'.signatures := by
  cases x with
  | call callee arguments parameterTypes callSpan type span =>
    obtain ⟨signature, hs, hp, hl, hc, hr⟩ := h
    obtain ⟨later, hlater, hgrow⟩ := hg.signatures.known _ _ hs
    obtain ⟨u, hu, -⟩ := hgrow.result _ hr
    refine ⟨later, hlater, hgrow.parameters.trans hp, hl, ?_, by rw [hu]; rfl⟩
    rw [Signature.settled, Bool.or_eq_true] at hc ⊢
    exact hc.imp hgrow.fixed (hgrow.checked.trans ·)
  | literal | var | binary | unary | update | assign | convert => trivial

theorem ExprPart.callSettled {s s' : Checker} {x : Typed.Expr} (h : ExprPart s s' x) :
    x.CallSettled s'.signatures := by
  obtain ⟨e, hint, s₁, s₂, hrun, -, hout⟩ := h
  exact hrun.callSettled.later hout.later

theorem MadeExpr.callKnown {s s' : Checker} {x : Typed.Expr} (h : MadeExpr s s' x) :
    x.CallKnown s'.signatures := by
  obtain ⟨e, hint, s₁, s₂, hrun, -, hout⟩ := h
  exact hrun.callSettled.known hout

theorem MadeStmt.callKnown {s s' : Checker} {x : Typed.Stmt} (h : MadeStmt s s' x) :
    x.CallKnown s'.signatures := by
  obtain ⟨stmt, s₁, s₂, hrun, -, hout⟩ := h
  cases hrun with
  | call hs ha =>
    obtain ⟨later, hl, hg⟩ := (ha.free.extends.toGrows.trans hout).signatures.known _ _ hs
    exact ⟨later, hl, hg.parameters, ha.length_eq⟩
  | declare | declareValue | assign | branch | whileLoop | forLoop | breakLoop | continueLoop
  | returnBare | returnFixed | returnInferred | print | block | expression => trivial

/-- Between `s` and `s'` the result of `f` is not pinned to anything but what it is at `z`. -/
def Checker.Steady (z : Checker) (f : String) (s s' : Checker) : Prop :=
  s.Fixes f ∨ ¬ s'.Fixes f ∨ ∀ t, .resultPinned f t ∈ s'.log →
    ∃ signature, z.signatures.find? f = some signature ∧ signature.result = some t

/-- A stretch of checking in one function that leads up to `z`. -/
structure Checker.Heads (z s s' : Checker) : Prop where
  unfinished : s.Unfinished
  later : s'.Later z
  steady : ∀ f, s.scope.function = some f → z.Steady f s s'

namespace Checker.Heads

variable {z s s₁ s₂ s' : Checker}

theorem first (h : z.Heads s s₂) (h₁ : Advance (fun _ => True) s s₁)
    (h₂ : Advance (fun _ => True) s₁ s₂) : z.Heads s s₁ where
  unfinished := h.unfinished
  later := (h₂.later (h.unfinished.of_extends h₁.extends)).trans h.later
  steady f hf := by
    obtain hs | hs | hs := h.steady f hf
    · exact .inl hs
    · exact .inr (.inl fun hx => hs (hx.of_grows h₂.extends.signatures))
    · exact .inr (.inr fun t ht => hs t (h₂.extends.log _ ht))

theorem rest (h : z.Heads s s₂) (h₁ : Advance (fun _ => True) s s₁) : z.Heads s₁ s₂ where
  unfinished := h.unfinished.of_extends h₁.extends
  later := h.later
  steady f hf := by
    obtain hs | hs := h.steady f (h₁.extends.function.symm.trans hf)
    · exact .inl (hs.of_grows h₁.extends.signatures)
    · exact .inr hs

theorem leave {scope : Scope} (h : z.Heads s (s'.withScope scope)) : z.Heads s s' :=
  ⟨h.unfinished, ⟨h.later.signatures, h.later.log, h.later.pins⟩, h.steady⟩

theorem enter {scope : Scope} (h : z.Heads s s') (hf : scope.function = s.scope.function) :
    z.Heads (s.withScope scope) s' where
  unfinished f signature hs hfound := h.unfinished f signature (hf.symm.trans hs) hfound
  later := h.later
  steady f hs := h.steady f (hf.symm.trans hs)

end Checker.Heads

/-- The calls in a returned value keep their result, though it is set after them. -/
theorem StmtRun.callSettled_of_return {z s s₁ : Checker} {f : String} {value : Expr}
    {signature current : Signature} {typed : Typed.Expr} {result : NumType}
    (hf : s.scope.function = some f) (hs : s.signatures.find? f = some signature)
    (h : ExprRun value signature.result s typed s₁) (hx : signature.resultFixed = false)
    (hc : s₁.signatures.find? f = some current)
    (hz : z.Heads s (s₁.withSignature f { current with result := some result })) :
    ∀ x ∈ typed.parts, x.CallSettled z.signatures := by
  intro x hmem
  have hset := (h.part x hmem).callSettled
  cases x with
  | literal | var | binary | unary | update | assign | convert => trivial
  | call callee arguments parameterTypes callSpan type span =>
    obtain ⟨final, hfinal, hp, hl, hsettled, hr⟩ := hset
    by_cases hne : callee = f
    · subst hne
      rw [hc] at hfinal
      cases hfinal
      have hunchecked : current.checked = false :=
        hz.unfinished.of_extends h.free.extends _ _ (h.free.extends.function.trans hf) hc
      have hfixed : current.resultFixed = true := by
        rwa [Signature.settled, hunchecked, Bool.or_false] at hsettled
      have hopen : ¬ s.Fixes callee := by
        rintro ⟨found, hfound, htrue⟩
        rw [hs] at hfound
        cases hfound
        rw [hx] at htrue
        cases htrue
      obtain ⟨t, ht, htype⟩ := h.free.pinned hopen hc hfixed
      have hlast := Table.find?_insert_self s₁.signatures callee { current with result := some result }
      obtain ⟨later, hlater, hlasts⟩ := hz.later.signatures _ _ hlast
      obtain hsteady | hsteady | hsteady := hz.steady _ hf
      · exact absurd hsteady hopen
      · exact absurd ⟨_, hlast, hfixed⟩ hsteady
      · obtain ⟨found, hfound, hresult⟩ := hsteady t ht
        rw [hlater] at hfound
        cases hfound
        refine ⟨later, hlater, hlasts.parameters.trans hp, hl, (hlasts.settled hsettled).1, ?_⟩
        rw [hresult, ← htype, hr]
    · have hkeep := (Table.find?_insert_of_ne s₁.signatures
        { current with result := some result } hne).trans hfinal
      obtain ⟨later, hlater, hlasts⟩ := hz.later.signatures _ _ hkeep
      obtain ⟨hc', hr'⟩ := hlasts.settled hsettled
      exact ⟨later, hlater, hlasts.parameters.trans hp, hl, hc', hr'.trans hr⟩

theorem ExprRun.callsSettled {e : Expr} {hint : Option NumType} {s s' z : Checker} {t : Typed.Expr}
    (h : ExprRun e hint s t s') (hz : s'.Later z) :
    ∀ x ∈ t.parts, x.CallSettled z.signatures :=
  fun x hx => (h.part x hx).callSettled.later hz

theorem ExprRun?.callsSettled {e : Option Expr} {s s' z : Checker} {t : Option Typed.Expr}
    (h : ExprRun? e s t s') (hz : s'.Later z) :
    ∀ x ∈ Typed.partsOfExpr? t, x.CallSettled z.signatures := by
  cases h with
  | missing => exact fun x hx => (by cases hx)
  | present h => exact h.callsSettled hz

mutual

theorem StmtRun.callsSettled {stmt : Stmt} {s s' z : Checker} {t : Typed.Stmt}
    (h : StmtRun stmt s t s') (hz : z.Heads s s') : ∀ x ∈ t.exprs, x.CallSettled z.signatures := by
  match h with
  | .declare | .breakLoop _ | .continueLoop _ | .returnBare _ _ _ => exact fun x hx => (by cases hx)
  | .declareValue hv _ =>
    exact hv.callsSettled ((Step.declare (N := fun _ => True) trivial).later.trans hz.later)
  | .assign ha => exact fun x hx => (ha.part x hx).callSettled.later hz.later
  | .branch hc hy hn =>
    have hrest := (hz.rest (.steps hc.free)).leave
    have hyes := (hrest.first hy.free.copied hn.free).leave
    have hno := hrest.rest hy.free.copied
    have hcond := (hz.leave.first (.steps hc.free) (hy.free.copied.trans hn.free)).later
    simp only [Typed.Stmt.exprs, List.forall_mem_append]
    exact ⟨⟨hc.callsSettled hcond, hy.callsSettled hyes⟩, hn.callsSettled hno⟩
  | .whileLoop hc hb =>
    have hbody := (hz.rest (.steps hc.free)).leave
    have hcond := (hz.first (.steps hc.free) hb.free.looped).later
    simp only [Typed.Stmt.exprs, Typed.exprsOfStmt?, List.append_nil, List.nil_append,
      List.forall_mem_append]
    exact ⟨hc.callsSettled hcond, hb.callsSettled (hbody.enter rfl)⟩
  | .forLoop hs hc hb hp =>
    have hall := hz.leave
    have hafter := (Advance.steps hc.free).trans (hb.free.looped.trans hp.free)
    have hstart := hall.first hs.free hafter
    have hloop := hall.rest hs.free
    have hcond := (hloop.first (.steps hc.free) (hb.free.looped.trans hp.free)).later
    have hturn := hloop.rest (.steps hc.free)
    have hbody := (hturn.first hb.free.looped hp.free).leave
    have hstep := hturn.rest hb.free.looped
    simp only [Typed.Stmt.exprs, List.forall_mem_append]
    exact ⟨⟨⟨hs.callsSettled hstart, hc.callsSettled hcond⟩, hb.callsSettled (hbody.enter rfl)⟩,
      hp.callsSettled hstep⟩
  | .returnFixed hf hs hv hb hx ht =>
    exact hv.callsSettled ⟨hz.later.signatures, hz.later.log, hz.later.pins⟩
  | .returnInferred hf hs hv hb hx hc =>
    exact StmtRun.callSettled_of_return hf hs hv hx hc
      ⟨hz.unfinished, ⟨hz.later.signatures, hz.later.log, hz.later.pins⟩, hz.steady⟩
  | .print hv => exact hv.callsSettled hz.later
  | .block hb => exact hb.callsSettled hz.leave
  | .expression hv => exact hv.callsSettled hz.later
  | .call _ ha => exact fun x hx => (ha.part x hx).callSettled.later hz.later

theorem StmtRun?.callsSettled {stmt : Option Stmt} {s s' z : Checker} {t : Option Typed.Stmt}
    (h : StmtRun? stmt s t s') (hz : z.Heads s s') :
    ∀ x ∈ Typed.exprsOfStmt? t, x.CallSettled z.signatures := by
  match h with
  | .missing => exact fun x hx => (by cases hx)
  | .present h => exact h.callsSettled hz

theorem StmtsRun.callsSettled {stmts : List Stmt} {s s' z : Checker} {ts : List Typed.Stmt}
    (h : StmtsRun stmts s ts s') (hz : z.Heads s s') :
    ∀ x ∈ Typed.exprsOfStmts ts, x.CallSettled z.signatures := by
  match h with
  | .nil => exact fun x hx => (by cases hx)
  | .cons h hs =>
    simp only [Typed.exprsOfStmts, List.forall_mem_append]
    exact ⟨h.callsSettled (hz.first h.free hs.free), hs.callsSettled (hz.rest h.free)⟩

end

end Numlet
