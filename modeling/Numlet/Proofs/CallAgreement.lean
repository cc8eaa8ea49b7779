import Numlet.Proofs.Check.Programs

/-!
Callers and callees of a checked program agree on their signatures. The one exception is a function
without locals that pins its own result in a value that it returns: that value can widen the result once
more, and there is no second pass to give the call the final type.
-/
namespace Numlet

/-- A call for a value has the parameter types and the result of its callee. -/
def Typed.Expr.CallAgrees (p : Typed.Program) : Typed.Expr → Prop
  | .call callee arguments parameterTypes _ type _ =>
    p.signature? callee = some (parameterTypes, some type) ∧
      arguments.length = parameterTypes.length
  | _ => True

instance (p : Typed.Program) (x : Typed.Expr) : Decidable (x.CallAgrees p) :=
  match x with
  | .call .. => inferInstanceAs (Decidable (_ ∧ _))
  | .literal .. | .var .. | .binary .. | .unary .. | .update .. | .assign .. | .convert .. =>
    inferInstanceAs (Decidable True)

def Typed.Program.CallsAgree (p : Typed.Program) : Prop := ∀ x ∈ p.exprs, x.CallAgrees p

instance (p : Typed.Program) : Decidable p.CallsAgree :=
  inferInstanceAs (Decidable (∀ x ∈ p.exprs, x.CallAgrees p))

/-- A function without locals has a result other than one that it was pinned to. -/
def Typed.Program.ResultOutgrown (p : Typed.Program) (log : Array Event) : Prop :=
  ∃ f ∈ p.functions, f.storage.entries = [] ∧
    ∃ t, .resultPinned f.name t ∈ log ∧ f.result ≠ some t

section Program

variable {p : Program} {options : Options} {typed : Typed.Program} {z : Checker}

theorem ProgramRun.callAgrees (h : ProgramRun p options typed z) {x : Typed.Expr}
    (hx : x.CallSettled z.signatures) : x.CallAgrees typed := by
  cases x with
  | call callee arguments parameterTypes callSpan type span =>
    obtain ⟨signature, hs, hp, hl, -, hr⟩ := hx
    have hsig := h.signature?_eq hs
    rw [hp, hr] at hsig
    exact ⟨hsig, hl⟩
  | literal | var | binary | unary | update | assign | convert => trivial

/-- The bodies of a checked program, apart or together. -/
theorem Typed.Program.mem_exprs {p : Typed.Program} {x : Typed.Expr} :
    x ∈ p.exprs ↔ (∃ f ∈ p.functions, x ∈ exprsOfStmts f.body) ∨ x ∈ exprsOfStmts p.entry.body := by
  simp [exprs, bodies]

theorem Typed.Program.mem_stmts {p : Typed.Program} {x : Typed.Stmt} :
    x ∈ p.stmts ↔ (∃ f ∈ p.functions, x ∈ partsOfStmts f.body) ∨ x ∈ partsOfStmts p.entry.body := by
  simp [stmts, bodies]

/-- Calls for values agree with their callees exactly if no result has outgrown its pin. -/
theorem ProgramRun.callsAgree_iff (h : ProgramRun p options typed z) :
    typed.CallsAgree ↔ ¬ typed.ResultOutgrown z.log := by
  constructor
  · rintro hagree ⟨f, hf, hempty, t, ht, hne⟩
    have hchecked := h.checked f hf
    obtain ⟨value, span, hreturn, x, hx, hcall⟩ := hchecked.outgrown hempty t ht hne
    have hmem := Typed.exprsOfStmts_subset f.body _ hreturn hx
    have hx' := hagree x (Typed.Program.mem_exprs.mpr (.inl ⟨f, hf, hmem⟩))
    cases x with
    | call callee arguments parameterTypes callSpan type span =>
      obtain ⟨rfl, rfl⟩ := hcall
      obtain ⟨signature, hs, -, hr⟩ := hchecked.signature
      have hsig := h.signature?_eq hs
      rw [hx'.1, hr] at hsig
      exact hne (congrArg Prod.snd (Option.some.inj hsig)).symm
    | literal | var | binary | unary | update | assign | convert => cases hcall
  · intro hfit x hx
    obtain ⟨f, hf, hx⟩ | hx := Typed.Program.mem_exprs.mp hx
    · have hsame : f.storage.entries = [] → ∀ t, .resultPinned f.name t ∈ z.log →
          f.result = some t :=
        fun hempty t ht => Decidable.byContradiction fun hne => hfit ⟨f, hf, hempty, t, ht, hne⟩
      exact h.callAgrees ((h.checked f hf).settled hsame x hx)
    · exact h.callAgrees (h.entry.1 x hx)

/-- Whatever a call for a value has as its type, its callee has a result. -/
theorem ProgramRun.signature?_of_call (h : ProgramRun p options typed z) {x : Typed.Expr}
    (hx : x ∈ typed.exprs) : x.CallKnown z.signatures := by
  obtain ⟨f, hf, hx⟩ | hx := Typed.Program.mem_exprs.mp hx
  · exact (h.checked f hf).exprs x hx
  · have hsettled := h.entry.1 x hx
    exact hsettled.known (.refl z)

end Program

/-- Every call has the parameter types of its callee, with one argument for each, and a call for a value
has a callee with a result. That result is the type of the call, at all calls of the program, exactly if
no function without locals has outgrown a pin. Returns fit the result of their function. -/
theorem calls_agree_unless_result_outgrown {p : Program} {options : Options} {typed : Typed.Program}
    {z : Checker} (h : p.check options = .ok typed z) :
    (∀ callee arguments parameterTypes callSpan type span,
      .call callee arguments parameterTypes callSpan type span ∈ typed.exprs →
        arguments.length = parameterTypes.length ∧
          ∃ result, typed.signature? callee = some (parameterTypes, some result)) ∧
    (∀ callee arguments parameterTypes span,
      .call callee arguments parameterTypes span ∈ typed.stmts →
        arguments.length = parameterTypes.length ∧
          ∃ result, typed.signature? callee = some (parameterTypes, result)) ∧
    (typed.CallsAgree ↔ ¬ typed.ResultOutgrown z.log) ∧
    ∀ f ∈ typed.functions,
      (∀ value span, .returnValue (some value) span ∈ Typed.partsOfStmts f.body →
        ∃ result, f.result = some result ∧ value.type.rank ≤ result.rank) ∧
      ∀ span, .returnValue none span ∈ Typed.partsOfStmts f.body → f.result = none := by
  have hrun := ProgramRun.of_check h
  refine ⟨?_, ?_, hrun.callsAgree_iff, fun f hf => ?_⟩
  · intro callee arguments parameterTypes callSpan type span hx
    obtain ⟨signature, hs, hp, hl, -, hr⟩ := hrun.signature?_of_call hx
    obtain ⟨result, hresult⟩ := Option.isSome_iff_exists.mp hr
    refine ⟨hl, result, ?_⟩
    rw [hrun.signature?_eq hs, hp, hresult]
  · intro callee arguments parameterTypes span hx
    have hknown : (Typed.Stmt.call callee arguments parameterTypes span).CallKnown z.signatures := by
      obtain ⟨f, hf, hx⟩ | hx := Typed.Program.mem_stmts.mp hx
      · exact (hrun.checked f hf).stmts _ hx
      · exact hrun.entry.2 _ hx
    obtain ⟨signature, hs, hp, hl⟩ := hknown
    refine ⟨hl, signature.result, ?_⟩
    rw [hrun.signature?_eq hs, hp]
  · exact ⟨(hrun.checked f hf).returned, (hrun.checked f hf).returnedBare⟩

/-- A function that is pinned by an earlier one and calls itself. -/
theorem calls_agree_in_recursion :
    ∃ p typed z, Program.ofSource "fn a() \x7b return b(2); \x7d fn b(n) \x7b return b(n) + a(); \x7d" "" =
        .ok p ∧
      p.check {} = .ok typed z ∧ typed.CallsAgree ∧ ¬ typed.ResultOutgrown z.log := by
  obtain ⟨typed, hsource, hagree⟩ := exists_ok_of_decide (P := Typed.Program.CallsAgree)
    (x := checkSource "fn a() \x7b return b(2); \x7d fn b(n) \x7b return b(n) + a(); \x7d" "" {})
    (by decide +kernel)
  obtain ⟨p, z, hp, h⟩ := checkSource_eq_ok.mp hsource
  exact ⟨p, typed, z, hp, h, hagree, (calls_agree_unless_result_outgrown h).2.2.1.mp hagree⟩

/-- The call pins the result to `i32`, the return widens it to `f32`, and the call stays `i32`. -/
theorem call_outgrown_by_its_return :
    ∃ typed, checkSource "fn f() \x7b return f() + 1.5; \x7d" "" {} = .ok typed ∧
      ¬ typed.CallsAgree :=
  exists_ok_of_decide (by decide +kernel)

end Numlet
