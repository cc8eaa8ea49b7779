import Numlet.Proofs.Check.Locals
import Numlet.Proofs.Code.Programs
import Numlet.Proofs.Placed

/-!
Where the faults lie that a lowering finds. Each is a coercion that is refused, and a coercion lies at the
start of a node.
-/
namespace Numlet

namespace Typed.Context

variable {start : Position → Prop} (c : Context)

mutual

theorem coercions_placed (e : Expr) (h : e.Placed start) : ∀ k ∈ c.coercions e, start k.span.start := by
  match e, h with
  | .literal _ _ _, _ => simp [coercions]
  | .var _ _ _, h => exact List.forall_mem_singleton.mpr h
  | .binary op left right operandType _ _, ⟨_, hleft, hright⟩ =>
    have hl := coercions_placed left hleft
    have hr := coercions_placed right hright
    rw [coercions]
    split
    · exact List.forall_mem_append.mpr ⟨hl, hr⟩
    · simp only [List.forall_mem_append, List.forall_mem_cons]
      exact ⟨⟨hl, hleft.span, hr⟩, hright.span, List.forall_mem_nil _⟩
  | .unary _ operand _ _, ⟨_, hoperand⟩ => exact coercions_placed operand hoperand
  | .update _ _ _ _, h =>
    simp only [coercions, List.forall_mem_cons]
    exact ⟨h, h, h, List.forall_mem_nil _⟩
  | .assign _ value _ _, ⟨hspan, hvalue⟩ =>
    simp only [coercions, List.forall_mem_append, List.forall_mem_cons]
    exact ⟨coercions_placed value hvalue, hspan, hspan, List.forall_mem_nil _⟩
  | .convert operand _ _ _ _, ⟨hspan, hoperand⟩ =>
    simp only [coercions, List.forall_mem_append, List.forall_mem_singleton]
    exact ⟨coercions_placed operand hoperand, hspan⟩
  | .call _ arguments parameterTypes _ _ _, ⟨_, _, harguments⟩ =>
    exact argumentCoercions_placed arguments parameterTypes harguments

theorem argumentCoercions_placed (arguments : List Expr) (types : List NumType)
    (h : placedExprs start arguments) :
    ∀ k ∈ c.argumentCoercions arguments types, start k.span.start := by
  match arguments, types, h with
  | [], _, _ | _ :: _, [], _ => simp [argumentCoercions]
  | argument :: arguments, _ :: parameters, ⟨hargument, hrest⟩ =>
    simp only [argumentCoercions, List.forall_mem_append, List.forall_mem_cons]
    exact ⟨coercions_placed argument hargument, hargument.span,
      argumentCoercions_placed arguments parameters hrest⟩

end

theorem coercions?_placed {e : Option Expr} (h : ∀ t ∈ e, t.Placed start) :
    ∀ k ∈ c.coercions? e, start k.span.start := by
  cases e with
  | none => simp [coercions?]
  | some e => exact c.coercions_placed e (h e rfl)

mutual

theorem stmtCoercions_placed (s : Stmt) (h : s.Placed start) :
    ∀ k ∈ c.stmtCoercions s, start k.span.start := by
  match s, h with
  | .declare _ none _ _, ⟨hspan, _⟩ => exact List.forall_mem_singleton.mpr hspan
  | .declare _ (some value) _ _, ⟨hspan, hvalue⟩ =>
    simp only [stmtCoercions, List.forall_mem_append, List.forall_mem_singleton]
    exact ⟨c.coercions_placed value (hvalue value rfl), hspan⟩
  | .assign _ value _, ⟨hspan, hvalue⟩ =>
    simp only [stmtCoercions, List.forall_mem_append, List.forall_mem_singleton]
    exact ⟨c.coercions_placed value hvalue, hspan⟩
  | .branch condition yes no _, ⟨_, hcondition, hyes, hno⟩ =>
    simp only [stmtCoercions, List.forall_mem_append]
    exact ⟨⟨c.coercions_placed condition hcondition, stmtCoercions_placed yes hyes⟩,
      stmtCoercions?_placed no hno⟩
  | .loop first condition body step _, ⟨_, hfirst, hcondition, hbody, hstep⟩ =>
    simp only [stmtCoercions, List.forall_mem_append]
    exact ⟨⟨⟨stmtCoercions?_placed first hfirst, c.coercions?_placed hcondition⟩,
      stmtCoercions_placed body hbody⟩, stmtCoercions?_placed step hstep⟩
  | .breakLoop _, _ | .continueLoop _, _ | .returnValue none _, _ => simp [stmtCoercions]
  | .returnValue (some value) span, ⟨hspan, hvalue⟩ =>
    simp only [stmtCoercions, List.forall_mem_append]
    refine ⟨c.coercions_placed value (hvalue value rfl), fun k hk => ?_⟩
    obtain ⟨result, -, rfl⟩ := Option.map_eq_some_iff.mp (Option.mem_toList.mp hk)
    exact hspan
  | .print value _, ⟨_, hvalue⟩ => exact c.coercions_placed value hvalue
  | .expression value, hvalue => exact c.coercions_placed value hvalue
  | .block body _, ⟨_, hbody⟩ => exact stmtsCoercions_placed body hbody
  | .call _ arguments parameterTypes _, ⟨_, harguments⟩ =>
    exact c.argumentCoercions_placed arguments parameterTypes harguments

theorem stmtCoercions?_placed (s : Option Stmt) (h : placedStmt? start s) :
    ∀ k ∈ c.stmtCoercions? s, start k.span.start := by
  match s, h with
  | none, _ => simp [stmtCoercions?]
  | some s, h => exact stmtCoercions_placed s h

theorem stmtsCoercions_placed (ss : List Stmt) (h : placedStmts start ss) :
    ∀ k ∈ c.stmtsCoercions ss, start k.span.start := by
  match ss, h with
  | [], _ => simp [stmtsCoercions]
  | s :: ss, ⟨hs, hss⟩ =>
    exact List.forall_mem_append.mpr ⟨stmtCoercions_placed s hs, stmtsCoercions_placed ss hss⟩

end

end Typed.Context

theorem Typed.Program.coercions_placed {start : Position → Prop} {p : Typed.Program}
    (h : p.Placed start) : ∀ k ∈ p.coercions, start k.span.start := by
  intro k hk
  obtain ⟨f, hf, hk⟩ := List.mem_flatMap.mp hk
  have hbody : placedStmts start f.body := by
    obtain hf | hf := List.mem_append.mp hf
    · exact h.functions f hf
    · rw [List.mem_singleton.mp hf]
      exact h.entry
  exact Context.stmtsCoercions_placed _ f.body hbody k hk

/-- A program that has been checked fails to be lowered only at the start of a node. -/
theorem ProgramRun.lower_ends {m : Marks} {p : Program} {options : Options} {typed : Typed.Program}
    {z : Checker} (hrun : ProgramRun p options typed z) (h : typed.Placed m.start) :
    Ends m.Admits (fun _ _ => True) (typed.lower options) := by
  have hlower := typed.lower_run hrun.lowerable options
  cases hd : Coercion.firstRefusal typed.coercions with
  | none =>
    rw [hd] at hlower
    obtain ⟨imports, s, hs, -⟩ := hlower
    rw [hs]
    trivial
  | some d =>
    rw [hd] at hlower
    obtain ⟨s, hs⟩ := hlower
    obtain ⟨k, hk, hrefusal⟩ := List.exists_of_findSome?_eq_some hd
    rw [hs]
    unfold Coercion.refusal? at hrefusal
    split at hrefusal
    · cases hrefusal
      exact typed.coercions_placed h k hk
    · cases hrefusal

end Numlet
