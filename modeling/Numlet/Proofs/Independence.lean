import Numlet.Proofs.Code.Carried

/-!
The code of a function does not depend on what was lowered before it, whether that was lowered well or gave up
in the middle of a loop.
-/
namespace Numlet

/-- The states of a lowering of a program that has gone over any functions, of the program or not, and has
perhaps failed at some. -/
inductive Emitter.Reached (p : Typed.Program) : Emitter → Prop
  | fresh : Reached p { program := p }
  | body {s : Emitter} (h : Reached p s) (f : Typed.Function) :
      Reached p (finalState (Lowering.lowerBody f s))
  | function {s : Emitter} (h : Reached p s) (f : Typed.Function) (exportName : Option String) :
      Reached p (finalState (Lowering.lowerFunction f exportName s))

/-- No call changes the program. -/
theorem Emitter.Reached.program {p : Typed.Program} {s : Emitter} (h : Reached p s) : s.program = p := by
  induction h with
  | fresh => rfl
  | body _ f ih => exact ((Lowering.lowerBody_carries f).program _).trans ih
  | function _ f exportName ih => exact ((Lowering.lowerFunction_carries f exportName).program _).trans ih

/-- A body is lowered from any state as from a fresh one that carries the hosts and events so far. -/
theorem Lowering.lowerBody_eq_fresh (f : Typed.Function) (s : Emitter) :
    lowerBody f s = onState (·.carrying s.usedHosts s.log) (lowerBody f { program := s.program }) := by
  -- All other parts of the state are set anew before anything is lowered.
  have hreset : lowerBody f s =
      lowerBody f { program := s.program, usedHosts := s.usedHosts, log := s.log } := rfl
  have hcarrying : { program := s.program, usedHosts := s.usedHosts, log := s.log } =
      Emitter.carrying { program := s.program } s.usedHosts s.log := by
    simp only [Emitter.carrying, List.nil_union, Array.append_empty]
  rw [hreset, hcarrying, (lowerBody_carries f).result]

/-- After any lowerings of functions, be they successful or not, a function is lowered to the code or fails with
the diagnostic that it has on a fresh start, with the same slots at the end. The used hosts are those from
before and those of the run on a fresh start. -/
theorem lowerBody_independent {p : Typed.Program} {s : Emitter} (h : Emitter.Reached p s)
    (f : Typed.Function) :
    answer (Lowering.lowerBody f s) = answer (Lowering.lowerBody f { program := p }) ∧
      (finalState (Lowering.lowerBody f s)).slots =
        (finalState (Lowering.lowerBody f { program := p })).slots ∧
      ∀ host, host ∈ (finalState (Lowering.lowerBody f s)).usedHosts ↔
        host ∈ s.usedHosts ∨ host ∈ (finalState (Lowering.lowerBody f { program := p })).usedHosts := by
  have heq := Lowering.lowerBody_eq_fresh f s
  rw [h.program] at heq
  rw [heq, answer_onState, finalState_onState]
  refine ⟨rfl, rfl, fun host => ?_⟩
  rw [Emitter.carrying, List.mem_union_iff]
  exact Or.comm

/-- Whether the first of two functions fails in a loop after a call of the host, and the second one has slots
and calls of its own. -/
def Typed.Program.failsInLoop (typed : Typed.Program) : Bool :=
  match typed.functions with
  | [g, f] =>
    let s := finalState (Lowering.lowerBody g { program := typed })
    let t := finalState (Lowering.lowerBody f { program := typed })
    decide (s.usedHosts = [.print .i32] ∧ s.slots.entries = [("k", .i32), ("x", .f32)] ∧
      s.nextLabel = 1 ∧ t.slots.entries = [("n", .i32), ("x", .i32)] ∧ .print .f32 ∈ t.usedHosts)
  | _ => false

/-- A function that fails in a loop, after a call of the host, leaves slots, a label and that host behind. -/
theorem lowerBody_independent_of_failed_loop :
    ∃ typed g f s, checkSource ("fn g(k) \x7b while k \x7b print k; x = 2.5; y = x as i32; \x7d \x7d " ++
        "fn f(n) \x7b while n \x7b x = n; print 2.5; break; \x7d \x7d") "" {} = .ok typed ∧
      typed.functions = [g, f] ∧ s = finalState (Lowering.lowerBody g { program := typed }) ∧
      s.usedHosts = [.print .i32] ∧ s.slots.entries = [("k", .i32), ("x", .f32)] ∧ s.nextLabel = 1 ∧
      answer (Lowering.lowerBody f s) = answer (Lowering.lowerBody f { program := typed }) ∧
      (finalState (Lowering.lowerBody f s)).slots.entries = [("n", .i32), ("x", .i32)] ∧
      .print .i32 ∈ (finalState (Lowering.lowerBody f s)).usedHosts ∧
      .print .f32 ∈ (finalState (Lowering.lowerBody f s)).usedHosts := by
  obtain ⟨typed, hsource, hruns⟩ := exists_ok_of_decide
    (P := fun typed : Typed.Program => typed.failsInLoop = true)
    (x := checkSource ("fn g(k) \x7b while k \x7b print k; x = 2.5; y = x as i32; \x7d \x7d " ++
      "fn f(n) \x7b while n \x7b x = n; print 2.5; break; \x7d \x7d") "" {}) (by decide +kernel)
  unfold Typed.Program.failsInLoop at hruns
  split at hruns
  · next g f hfunctions =>
    obtain ⟨hhosts, hslots, hlabel, hslots', hhost⟩ := of_decide_eq_true hruns
    obtain ⟨hsame, hslots'', hused⟩ := lowerBody_independent (.body (.fresh (p := typed)) g) f
    refine ⟨typed, g, f, _, hsource, hfunctions, rfl, hhosts, hslots, hlabel, hsame, ?_, ?_, ?_⟩
    · rw [hslots'', hslots']
    · exact (hused _).mpr (.inl (by simp [hhosts]))
    · exact (hused _).mpr (.inr hhost)
  · cases hruns

end Numlet
