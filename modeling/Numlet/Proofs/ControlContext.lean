import Numlet.Proofs.Check.Context

/-!
The rules for jumps and returns. They are enforced as they read: what is accepted keeps them, and what is
rejected for its around breaks them there.
-/
namespace Numlet

open Checking

theorem Stmt.misplaced?_eq_some {around : Nesting} {stmt : Stmt} {d : Diagnostic}
    (h : stmt.misplaced? around = some d) :
    (∃ span, stmt = .breakLoop span ∧ around.inLoop = false ∧
      d = ⟨.contextViolation "break" "a loop", span.start⟩) ∨
    (∃ span, stmt = .continueLoop span ∧ around.inLoop = false ∧
      d = ⟨.contextViolation "continue" "a loop", span.start⟩) ∨
    ∃ value span, stmt = .returnValue value span ∧ around.inFunction = false ∧
      d = ⟨.contextViolation "return" "a function body", span.start⟩ := by
  cases stmt with
  | breakLoop span =>
    obtain ⟨hloop, hd⟩ : around.inLoop = false ∧ _ = d := by simpa [misplaced?] using h
    exact .inl ⟨span, rfl, hloop, hd.symm⟩
  | continueLoop span =>
    obtain ⟨hloop, hd⟩ : around.inLoop = false ∧ _ = d := by simpa [misplaced?] using h
    exact .inr (.inl ⟨span, rfl, hloop, hd.symm⟩)
  | returnValue value span =>
    obtain ⟨hfunction, hd⟩ : around.inFunction = false ∧ _ = d := by simpa [misplaced?] using h
    exact .inr (.inr ⟨value, span, rfl, hfunction, hd.symm⟩)
  | function | declare | assign | branch | whileLoop | forLoop | print | block | expression | call =>
    cases h

/-- In a program that is accepted, every jump is in the body of a loop and every return in the body of a
function. Where a program is rejected because a construct is out of its context, the diagnostic names a jump
that is in no loop's body, or a return that is in no function, and lies at its start. -/
theorem control_context_enforced (p : Program) (options : Options) :
    (∀ typed s, p.check options = .ok typed s → ∀ around,
      (∀ span, (around, .breakLoop span) ∈ p.standing → around.inLoop = true) ∧
      (∀ span, (around, .continueLoop span) ∈ p.standing → around.inLoop = true) ∧
      ∀ value span, (around, .returnValue value span) ∈ p.standing → around.inFunction = true) ∧
    ∀ d s construct context, p.check options = .error d s → d.fault = .contextViolation construct context →
      ∃ around,
        (∃ span, (around, .breakLoop span) ∈ p.standing ∧ around.inLoop = false ∧
          d = ⟨.contextViolation "break" "a loop", span.start⟩) ∨
        (∃ span, (around, .continueLoop span) ∈ p.standing ∧ around.inLoop = false ∧
          d = ⟨.contextViolation "continue" "a loop", span.start⟩) ∨
        ∃ value span, (around, .returnValue value span) ∈ p.standing ∧ around.inFunction = false ∧
          d = ⟨.contextViolation "return" "a function body", span.start⟩ := by
  have hends := checkProgram_confines p (.new options) trivial
  refine ⟨fun typed s h around => ?_, fun d s construct context h hfault => ?_⟩
  · rw [show checkProgram p (.new options) = .ok typed s from h] at hends
    have hplaced (stmt : Stmt) (hmem : (around, stmt) ∈ p.standing) := hends.2 _ hmem
    refine ⟨fun span hmem => ?_, fun span hmem => ?_, fun value span hmem => ?_⟩
    all_goals simpa [Stmt.misplaced?] using hplaced _ hmem
  · rw [show checkProgram p (.new options) = .error d s from h] at hends
    obtain ⟨⟨around, stmt⟩, hmem, hd⟩ := hends (congrArg Fault.isContextViolation hfault)
    refine ⟨around, ?_⟩
    obtain ⟨span, rfl, hrest⟩ | ⟨span, rfl, hrest⟩ | ⟨value, span, rfl, hrest⟩ := Stmt.misplaced?_eq_some hd
    · exact .inl ⟨span, hmem, hrest⟩
    · exact .inr (.inl ⟨span, hmem, hrest⟩)
    · exact .inr (.inr ⟨value, span, hmem, hrest⟩)

/-- A loop whose body breaks out of it, from the fifth byte on. -/
def loopFrom (start : Option Stmt) : Program :=
  let jump : Span := ⟨⟨4, ""⟩, ⟨9, ""⟩⟩
  ⟨[], [.forLoop start none none (.branch (.literal (.int 1) jump) (.breakLoop jump) none jump) jump], jump⟩

/-- What a loop starts with is not in its body, so that a jump there is rejected. -/
theorem control_context_of_loop_start :
    (∃ typed s, (loopFrom none).check {} = .ok typed s ∧ ∃ around span,
      (around, .breakLoop span) ∈ (loopFrom none).standing ∧ around.inLoop = true) ∧
    ∃ d s, (loopFrom (some (.continueLoop ⟨⟨2, ""⟩, ⟨3, ""⟩⟩))).check {} = .error d s ∧
      ∃ around span, (around, .continueLoop span) ∈
          (loopFrom (some (.continueLoop ⟨⟨2, ""⟩, ⟨3, ""⟩⟩))).standing ∧
        around.inLoop = false ∧ d = ⟨.contextViolation "continue" "a loop", span.start⟩ := by
  constructor
  · obtain ⟨typed, s, h, -⟩ := exists_run_of_decide (P := fun _ _ => True)
      (x := (loopFrom none).check {}) (by decide +kernel)
    have hmem : (⟨false, true⟩, .breakLoop ⟨⟨4, ""⟩, ⟨9, ""⟩⟩) ∈ (loopFrom none).standing :=
      .tail _ (.tail _ (.head _))
    exact ⟨typed, s, h, _, _, hmem, ((control_context_enforced _ _).1 typed s h _).1 _ hmem⟩
  · have hdiagnostic : (match (loopFrom (some (.continueLoop ⟨⟨2, ""⟩, ⟨3, ""⟩⟩))).check {} with
        | .ok _ _ => none
        | .error d _ => some d.fault) = some (.contextViolation "continue" "a loop") := by decide +kernel
    cases h : (loopFrom (some (.continueLoop ⟨⟨2, ""⟩, ⟨3, ""⟩⟩))).check {} with
    | ok typed s =>
      rw [h] at hdiagnostic
      cases hdiagnostic
    | error d s =>
      rw [h] at hdiagnostic
      have hfault := Option.some.inj hdiagnostic
      obtain ⟨around, ⟨span, -, -, rfl⟩ | hjump | ⟨value, span, -, -, rfl⟩⟩ :=
        (control_context_enforced _ _).2 d s _ _ h hfault
      · simp at hfault
      · exact ⟨d, s, rfl, around, hjump⟩
      · simp at hfault

end Numlet
