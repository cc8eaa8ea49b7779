import Numlet.Proofs.CallAgreement
import Numlet.Proofs.Check.Rerun

/-!
A function that is checked once more when its program is done. Its locals are then read at their final types
and every function is known by its final signature. The second check keeps the storage, and it changes
nothing in the tree but the literals of returned values: a return wants the result as it is at that point,
and an inferred result may still widen behind it.
-/
namespace Numlet
open Checking

namespace Typed

/-- Every returned value has the types that it has if `result` is wanted of it. -/
def ReturnsAsked (result : Option NumType) (parts : List Stmt) : Prop :=
  ∀ value span, .returnValue (some value) span ∈ parts → value.asked result = value

theorem returnsAsked_append {result : Option NumType} {xs ys : List Stmt} :
    ReturnsAsked result (xs ++ ys) ↔ ReturnsAsked result xs ∧ ReturnsAsked result ys := by
  simp only [ReturnsAsked, List.mem_append]
  constructor
  · intro h
    exact ⟨fun value span hx => h value span (.inl hx), fun value span hx => h value span (.inr hx)⟩
  · rintro ⟨hx, hy⟩ value span (h | h)
    · exact hx value span h
    · exact hy value span h

theorem returnsAsked_singleton {result : Option NumType} {x : Stmt} :
    ReturnsAsked result [x] ↔
      ∀ value span, x = .returnValue (some value) span → value.asked result = value := by
  simp only [ReturnsAsked, List.mem_singleton]
  exact ⟨fun h value span hx => h value span hx.symm, fun h value span hx => h value span hx.symm⟩

mutual

theorem Stmt.returning_eq_self (result : Option NumType) (s : Stmt) :
    s.returning result = s ↔ ReturnsAsked result s.parts := by
  match s with
  | .declare .. | .assign .. | .breakLoop _ | .continueLoop _ | .print .. | .expression _ | .call .. =>
    simp [Stmt.returning, Stmt.parts, returnsAsked_singleton]
  | .returnValue none span => simp [Stmt.returning, Stmt.parts, returnsAsked_singleton]
  | .returnValue (some value) span => simp [Stmt.returning, Stmt.parts, returnsAsked_singleton]
  | .branch condition yes no span =>
    have hyes := yes.returning_eq_self result
    have hno := returningStmt?_eq_self result no
    simp [Stmt.returning, Stmt.parts, returnsAsked_append, returnsAsked_singleton, hyes, hno]
  | .loop start condition body step span =>
    have hstart := returningStmt?_eq_self result start
    have hbody := body.returning_eq_self result
    have hstep := returningStmt?_eq_self result step
    simp [Stmt.returning, Stmt.parts, returnsAsked_append, returnsAsked_singleton, hstart, hbody, hstep]
  | .block body span =>
    have hbody := returningStmts_eq_self result body
    simp [Stmt.returning, Stmt.parts, returnsAsked_append, returnsAsked_singleton, hbody]

theorem returningStmt?_eq_self (result : Option NumType) (s : Option Stmt) :
    returningStmt? result s = s ↔ ReturnsAsked result (partsOfStmt? s) := by
  match s with
  | none => simp [returningStmt?, partsOfStmt?, ReturnsAsked]
  | some s =>
    have hs := s.returning_eq_self result
    simp [returningStmt?, partsOfStmt?, hs]

/-- A body stays as it is exactly if all its returned values do. -/
theorem returningStmts_eq_self (result : Option NumType) (ss : List Stmt) :
    returningStmts result ss = ss ↔ ReturnsAsked result (partsOfStmts ss) := by
  match ss with
  | [] => simp [returningStmts, partsOfStmts, ReturnsAsked]
  | s :: ss =>
    have hs := s.returning_eq_self result
    have hss := returningStmts_eq_self result ss
    simp [returningStmts, partsOfStmts, returnsAsked_append, hs, hss]

end

end Typed

/-- The type of a call lies between the results that its callee has before and after. -/
theorem MadeExpr.call_between {s s' : Checker} {callee : String} {arguments : List Typed.Expr}
    {parameterTypes : List NumType} {callSpan span : Span} {type : NumType}
    (h : MadeExpr s s' (.call callee arguments parameterTypes callSpan type span)) :
    (∀ signature r, s.signatures.find? callee = some signature → signature.result = some r →
      r.rank ≤ type.rank) ∧
    ∃ signature r, s'.signatures.find? callee = some signature ∧ signature.result = some r ∧
      type.rank ≤ r.rank := by
  obtain ⟨e, hint, s₁, s₂, hrun, hin, hout⟩ := h
  obtain ⟨found, hfound, -, -, -, hresult⟩ := hrun.callSettled
  constructor
  · intro first r hfirst hr
    obtain ⟨later, hl, hg⟩ := (hin.grows.trans hrun.free.extends.toGrows).signatures.known _ _ hfirst
    cases hfound.symm.trans hl
    obtain ⟨u, hu, hle⟩ := hg.result r hr
    cases hresult.symm.trans hu
    exact hle
  · obtain ⟨later, hl, hg⟩ := hout.signatures.known _ _ hfound
    obtain ⟨r, hr, hle⟩ := hg.result type hresult
    exact ⟨later, r, hl, hr, hle⟩

/-- What is settled stays while a body is checked, in inner scopes too. -/
theorem Enters.later {s s' : Checker} (h : Enters s s') (ho : s.Unfinished) :
    s'.Unfinished ∧ s.Later s' := by
  induction h with
  | refl => exact ⟨ho, .refl _⟩
  | advance _ ha ih => exact ⟨ih.1.of_extends ha.extends, ih.2.trans (ha.later ih.1)⟩
  | scope _ _ hf ih =>
    refine ⟨fun f signature hfun hs => ih.1 f signature (hf.symm.trans hfun) hs, ?_⟩
    exact ⟨ih.2.signatures, ih.2.log, ih.2.pins⟩

/-- The value of a return was checked with the result wanted that its function has at that point. -/
theorem MadeStmt.asked {s s' : Checker} {value : Typed.Expr} {span : Span}
    (h : MadeStmt s s' (.returnValue (some value) span)) :
    ∃ s₁ f signature, Enters s s₁ ∧ s.scope.function = some f ∧
      s₁.signatures.find? f = some signature ∧ value.asked signature.result = value := by
  obtain ⟨stmt, s₁, s₂, hrun, hin, -⟩ := h
  cases hrun with
  | returnFixed hf hs h => exact ⟨s₁, _, _, hin, hin.function.symm.trans hf, hs, h.asked_self⟩
  | returnInferred hf hs h => exact ⟨s₁, _, _, hin, hin.function.symm.trans hf, hs, h.asked_self⟩

namespace Checker

/-- Checking the body of `f` once more, after the program has ended with `z`, gives the tree `body` and the
storage of `t`. -/
def Rechecks (z : Checker) (f : Function) (t : Typed.Function) (body : List Typed.Stmt) : Prop :=
  ∃ z', pass (.forFunction f.name) t.storage t.parameters f.body z = .ok body z' ∧
    z'.storage = t.storage

theorem Rechecks.unique {z : Checker} {f : Function} {t : Typed.Function} {a b : List Typed.Stmt}
    (ha : z.Rechecks f t a) (hb : z.Rechecks f t b) : a = b := by
  obtain ⟨z₁, ha, -⟩ := ha
  obtain ⟨z₂, hb, -⟩ := hb
  rw [ha] at hb
  cases hb
  rfl

theorem Twin.fresh {z s : Checker} {scope : Scope} {reads reads' : Table NumType}
    (ho : z.options = s.options) (hr : ∀ slot, reads'.find? slot = reads.find? slot) :
    z.Twin (s.fresh scope reads) (z.fresh scope reads') where
  options := ho
  storage := rfl
  declarations := rfl
  bareReturn := rfl
  valuedReturn := rfl
  scope := rfl
  reads := hr
  signatures _ := rfl

theorem Twin.entered {z s u : Checker} (h : z.Twin s u) (ps : List Typed.Parameter) :
    z.Twin (ps.foldl (fun s p => s.declared p.name p.type true) s)
      (ps.foldl (fun s p => s.declared p.name p.type true) u) := by
  induction ps generalizing s u with
  | nil => exact h
  | cons p ps ih => exact ih (h.declared p.name p.type true)

end Checker

section Functions

variable {f : Function} {t : Typed.Function} {s z : Checker}

theorem CheckedBetween.later (h : CheckedBetween s z f t) : s.Later z := by
  obtain ⟨s₁, s₂, hrun, ha, hs₁, hz, -⟩ := h
  exact hs₁.trans ((hrun.later ha).trans hz)

theorem CheckedBetween.name_eq (h : CheckedBetween s z f t) : t.name = f.name := by
  obtain ⟨s₁, s₂, hrun, -⟩ := h
  exact hrun.name_eq

/-- If all calls have the final results, the second check retypes the returned values and nothing else. -/
theorem CheckedBetween.rechecks (h : CheckedBetween s z f t)
    (hcalls : ∀ x ∈ Typed.exprsOfStmts t.body, x.CallSettled z.signatures) :
    z.Rechecks f t (Typed.returningStmts t.result t.body) := by
  have hchecked := h.checked
  obtain ⟨s₁, s₂, hrun, ha, -, hz, ho⟩ := h
  obtain @⟨body, s₃, signature, hp, hs, hr⟩ := hrun
  obtain ⟨readTypes, s₀, _, number, hpass, hagrees, hoptions, rfl⟩ :=
    hp.final (P := fun c => c.options = s₁.options)
      (fun _ _ _ _ hpass hc => hpass.advance.extends.options.trans hc) rfl
  obtain @⟨s₄, hrun⟩ := hpass
  -- The last pass has read the storage that it ends with.
  have htwin : z.Twin (s₀.entered (.forFunction f.name) readTypes f.typedParameters)
      (z.entered (.forFunction f.name) s₄.storage f.typedParameters) :=
    .entered (.fresh (ho.symm.trans hoptions.symm) fun slot => Table.find?_eq_of_agrees hagrees slot) _
  have hends : z.Ends (s₀.entered (.forFunction f.name) readTypes f.typedParameters) signature.result := by
    intro g hg
    have hin := s₀.entered_steps (N := fun _ => True) (.forFunction f.name) readTypes f.typedParameters
      fun _ _ => trivial
    cases hin.extends.function.symm.trans hg
    obtain ⟨last, hlast, -, hresult⟩ := hchecked.signature
    exact ⟨last, hlast, hresult⟩
  obtain ⟨u, hagain, hu⟩ := hrun.rerun htwin hends
    ⟨hcalls, hchecked.stmts, hchecked.returned, hchecked.returnedBare⟩
  exact ⟨_, (PassRun.mk hagain).pass, hu.storage⟩

/-- The calls of a tree that is the outcome of the second check have the final results. -/
theorem CheckedBetween.callSettled_of_rechecks (h : CheckedBetween s z f t) (hz : z.Rechecks f t t.body) :
    ∀ x ∈ Typed.exprsOfStmts t.body, x.CallSettled z.signatures := by
  intro x hx
  have hknown := h.checked.exprs x hx
  cases x with
  | literal | var | binary | unary | update | assign | convert => trivial
  | call callee arguments parameterTypes callSpan type span =>
    obtain ⟨last, hlast, hparams, hlength, hsettled, hsome⟩ := hknown
    obtain ⟨r, hr⟩ := Option.isSome_iff_exists.mp hsome
    refine ⟨last, hlast, hparams, hlength, hsettled, ?_⟩
    -- The first check has not seen more of the callee than the end, and the second one not less.
    have hle : type.rank ≤ r.rank := by
      obtain ⟨s₁, s₂, hrun, ha, -, hlater, -⟩ := h
      obtain @⟨body, s₃, signature, hp, hs, -⟩ := hrun
      obtain ⟨readTypes, s₀, _, number, ⟨hrun⟩, -, -, rfl⟩ :=
        hp.final (P := fun _ => True) (fun _ _ _ _ _ _ => trivial) trivial
      obtain ⟨found, v, hfound, hv, hle⟩ := (hrun.made.1 _ hx).call_between.2
      obtain ⟨later, hl, hlasts⟩ := ((Checker.checked_later hs).trans hlater).signatures callee found hfound
      cases hlast.symm.trans hl
      obtain ⟨u, hu, hvu⟩ := hlasts.result v hv
      cases hr.symm.trans hu
      exact Nat.le_trans hle hvu
    have hge : r.rank ≤ type.rank := by
      obtain ⟨z', hpass, -⟩ := hz
      obtain ⟨hrun⟩ := PassRun.of_pass hpass
      have hin := z.entered_steps (N := fun _ => True) (.forFunction f.name) t.storage t.parameters
        fun _ _ => trivial
      exact ((hrun.made.1 _ hx).mono (.of_steps hin) (.refl _)).call_between.1 last r hlast hr
    rw [hr, NumType.eq_of_rank_eq (Nat.le_antisymm hle hge)]

/-- The second check finds what the first one found exactly if all calls have the final results and all
returned values the types that the final result asks for. -/
theorem CheckedBetween.rechecks_self_iff (h : CheckedBetween s z f t) :
    z.Rechecks f t t.body ↔ (∀ x ∈ Typed.exprsOfStmts t.body, x.CallSettled z.signatures) ∧
      Typed.ReturnsAsked t.result (Typed.partsOfStmts t.body) := by
  constructor
  · intro hsame
    have hcalls := h.callSettled_of_rechecks hsame
    exact ⟨hcalls, (Typed.returningStmts_eq_self _ _).mp ((h.rechecks hcalls).unique hsame)⟩
  · rintro ⟨hcalls, hreturns⟩
    have hagain := h.rechecks hcalls
    rwa [(Typed.returningStmts_eq_self _ _).mpr hreturns] at hagain

/-- A result that is settled before the body is checked is wanted of every returned value. -/
theorem CheckedBetween.returnsAsked (h : CheckedBetween s z f t) {signature : Signature}
    (hs : s.signatures.find? f.name = some signature) (hsettled : signature.settled = true) :
    Typed.ReturnsAsked t.result (Typed.partsOfStmts t.body) := by
  have hresult : t.result = signature.result := by
    obtain ⟨last, hlast, -, hr⟩ := h.checked.signature
    obtain ⟨later, hl, hlasts⟩ := h.later.signatures _ _ hs
    rw [h.name_eq, hl] at hlast
    cases hlast
    exact hr.symm.trans (hlasts.settled hsettled).2
  obtain ⟨s₁, s₂, hrun, ha, hs₁, -, -⟩ := h
  obtain @⟨body, s₃, final, hp, -, -⟩ := hrun
  obtain ⟨readTypes, s₀, _, number, ⟨hrun⟩, -, ⟨hlater, hopen⟩, rfl⟩ :=
    hp.final (P := fun c => s₁.Later c ∧ (c.withScope (.forFunction f.name)).Unfinished)
      (fun _ _ _ _ hpass hc => ⟨hc.1.trans (hpass.later hc.2), hpass.unfinished hc.2⟩)
      ⟨Checker.reported_later (by simp), ha.unfinished⟩
  have hin := s₀.entered_steps (N := fun _ => True) (.forFunction f.name) readTypes f.typedParameters
    fun _ _ => trivial
  intro value span hmem
  obtain ⟨s₅, g, found, henters, hg, hfound, hasked⟩ := (hrun.made.2 _ hmem).asked
  cases hin.extends.function.symm.trans hg
  -- From the declaration to the return the result has stayed.
  have hbody := ((Enters.of_steps hin).trans henters).later (s := s₀.fresh _ readTypes) hopen
  have hreach : s.Later s₅ := (hs₁.trans hlater).trans ⟨hbody.2.signatures, hbody.2.log, hbody.2.pins⟩
  obtain ⟨later, hl, hlasts⟩ := hreach.signatures _ _ hs
  cases hfound.symm.trans hl
  rw [hresult, ← (hlasts.settled hsettled).2]
  exact hasked

/-- A function whose result is settled from the start is never pinned, and the second check finds what the
first one found. -/
theorem CheckedBetween.rechecks_of_settled (h : CheckedBetween s z f t) (hlog : s.log = #[])
    {signature : Signature} (hs : s.signatures.find? f.name = some signature)
    (hsettled : signature.settled = true) : z.Rechecks f t t.body := by
  refine h.rechecks_self_iff.mpr ⟨h.checked.settled fun _ u hu => ?_, h.returnsAsked hs hsettled⟩
  rw [h.name_eq] at hu
  have hpinned := h.later.pins f.name signature u hs hsettled hu
  rw [hlog] at hpinned
  exact absurd hpinned (Array.not_mem_empty _)

end Functions

section Programs

variable {p : Program} {options : Options} {typed : Typed.Program} {s z : Checker} {f : Function}
  {t : Typed.Function}

/-- A call agrees with the checked program if it has what is known of its callee in the end. -/
theorem ProgramRun.callAgrees_iff (h : ProgramRun p options typed z) {x : Typed.Expr}
    (hx : x.CallKnown z.signatures) : x.CallAgrees typed ↔ x.CallSettled z.signatures := by
  refine ⟨fun hagrees => ?_, h.callAgrees⟩
  cases x with
  | literal | var | binary | unary | update | assign | convert => trivial
  | call callee arguments parameterTypes callSpan type span =>
    obtain ⟨signature, hs, hparams, hlength, hsettled, -⟩ := hx
    have hsame := hagrees.1.symm.trans (h.signature?_eq hs)
    simp only [Option.some.injEq, Prod.mk.injEq] at hsame
    exact ⟨signature, hs, hparams, hlength, hsettled, hsame.2.symm⟩

theorem CheckedBetween.callAgrees_iff (h : CheckedBetween s z f t) (hp : ProgramRun p options typed z) :
    (∀ x ∈ Typed.exprsOfStmts t.body, x.CallAgrees typed) ↔
      ∀ x ∈ Typed.exprsOfStmts t.body, x.CallSettled z.signatures :=
  forall₂_congr fun x hx => hp.callAgrees_iff (h.checked.exprs x hx)

end Programs

/-- When an accepted program is done, each of its functions can be checked once more. All calls agree with
their callees in a function with a parameter or a local. Where they do, the second check succeeds, with the
same storage and the same tree but for returned values, which now have the types that the final result asks
for. The tree is the same exactly if calls agree and returned values have these types; a fraction that is
returned as `f64` is then an `f64` literal. It always is the same where the result is declared. -/
theorem recheck_retypes_only_returns {p : Program} {options : Options} {typed : Typed.Program} {z : Checker}
    (h : p.check options = .ok typed z) :
    List.Forall₂ (fun f t =>
      (t.storage.entries ≠ [] → ∀ x ∈ Typed.exprsOfStmts t.body, x.CallAgrees typed) ∧
      ((∀ x ∈ Typed.exprsOfStmts t.body, x.CallAgrees typed) →
        z.Rechecks f t (Typed.returningStmts t.result t.body)) ∧
      (z.Rechecks f t t.body ↔ (∀ x ∈ Typed.exprsOfStmts t.body, x.CallAgrees typed) ∧
        Typed.ReturnsAsked t.result (Typed.partsOfStmts t.body)) ∧
      (z.Rechecks f t t.body → t.result = some .f64 → ∀ x type span span',
        .returnValue (some (.literal (.fraction x) type span)) span' ∈ Typed.partsOfStmts t.body →
          type = .f64) ∧
      (f.result.isSome = true → z.Rechecks f t t.body)) p.functions typed.functions := by
  have hrun := ProgramRun.of_check h
  obtain ⟨s, hd, -, heach⟩ := hrun.checkedBetween
  refine List.Forall₂.imp ?_ ((List.forall₂_and_left _ _).mpr ⟨fun f hf => hf, heach⟩)
  rintro f t ⟨hf, ht⟩
  have hagree := ht.callAgrees_iff hrun
  refine ⟨fun hslots => ?_, fun hcalls => ?_, ?_, fun hsame hresult x type span span' hmem => ?_,
    fun hdeclared => ?_⟩
  · exact hagree.mpr (ht.checked.settled fun hempty => absurd hempty hslots)
  · exact ht.rechecks (hagree.mp hcalls)
  · rw [hagree]
    exact ht.rechecks_self_iff
  · have hasked := (ht.rechecks_self_iff.mp hsame).2 _ span' hmem
    rw [hresult] at hasked
    cases hasked
    rfl
  · have hsettled : f.signature.settled = true := by
      rw [Signature.settled, Function.signature, hdeclared]
      rfl
    exact ht.rechecks_of_settled hd.rest.1 (hd.find?_of_mem hf) hsettled

def declaredSource : String :=
  "fn f(n) -> f64 \x7b let x = n; x = g(); return f(n) * 1.5 + x; \x7d fn g() -> f32 \x7b return 2; \x7d"

/-- Functions with declared results, one of which calls the other and itself and widens a local. -/
theorem declared_functions_recheck :
    ∃ p typed z, Program.ofSource declaredSource "" = .ok p ∧ p.check {} = .ok typed z ∧
      typed.functions.length = 2 ∧
      List.Forall₂ (fun f t => z.Rechecks f t t.body) p.functions typed.functions := by
  obtain ⟨p, hp, hdeclared⟩ := exists_ok_of_decide
    (P := fun p : Program => ∀ f ∈ p.functions, f.result.isSome = true)
    (x := Program.ofSource declaredSource "") (by decide +kernel)
  obtain ⟨typed, hsource, htwo⟩ := exists_ok_of_decide (P := fun typed => typed.functions.length = 2)
    (x := checkSource declaredSource "" {}) (by decide +kernel)
  obtain ⟨q, z, hq, h⟩ := checkSource_eq_ok.mp hsource
  cases hp.symm.trans hq
  refine ⟨p, typed, z, hp, h, htwo, ?_⟩
  have hall := (List.forall₂_and_left _ _).mpr ⟨hdeclared, recheck_retypes_only_returns h⟩
  refine hall.imp ?_
  rintro f t ⟨hf, -, -, -, -, hsame⟩
  exact hsame hf

/-- A return of a fraction that has been made an `f32`. -/
def Typed.Stmt.returnsSingle : Typed.Stmt → Bool
  | .returnValue (some (.literal (.fraction _) .f32 _)) _ => true
  | _ => false

/-- The first return has no result to go by and makes its fraction an `f32`. The second one widens the
result to `f64`, and without a local there is no pass to come. -/
theorem returned_literal_misses_later_result :
    ∃ p typed z, Program.ofSource "fn f() \x7b if 1 \x7b return 1.5; \x7d return 2.5 as f64; \x7d" "" =
        .ok p ∧
      p.check {} = .ok typed z ∧ ∃ f ∈ p.functions, ∃ t ∈ typed.functions,
        t.result = some .f64 ∧
        (∃ x span span', .returnValue (some (.literal (.fraction x) .f32 span)) span' ∈
          Typed.partsOfStmts t.body) ∧
        ¬ z.Rechecks f t t.body := by
  obtain ⟨typed, hsource, t, ht, hresult, part, hpart, hliteral⟩ := exists_ok_of_decide
    (P := fun typed => ∃ t ∈ typed.functions, t.result = some .f64 ∧ ∃ part ∈ Typed.partsOfStmts t.body,
      part.returnsSingle = true)
    (x := checkSource "fn f() \x7b if 1 \x7b return 1.5; \x7d return 2.5 as f64; \x7d" "" {})
    (by decide +kernel)
  obtain ⟨p, z, hp, h⟩ := checkSource_eq_ok.mp hsource
  obtain ⟨f, hf, s, hrun⟩ := (ProgramRun.of_check h).each ht
  unfold Typed.Stmt.returnsSingle at hliteral
  split at hliteral
  · next x span span' =>
    refine ⟨p, typed, z, hp, h, f, hf, t, ht, hresult, ⟨x, span, span', hpart⟩, fun hsame => ?_⟩
    have hasked := (hrun.rechecks_self_iff.mp hsame).2 _ _ hpart
    rw [hresult] at hasked
    cases hasked
  · cases hliteral

end Numlet
