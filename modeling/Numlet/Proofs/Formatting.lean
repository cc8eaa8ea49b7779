import Numlet.Compile
import Numlet.Proofs.Check.CoupledBodies
import Numlet.Proofs.Code.Coupled
import Numlet.Proofs.Tree.SameText

/-!
What a source compiles to depends on its lexemes alone. Blanks, comments, line breaks and the name of the file
change only the places of faults.
-/
namespace Numlet

/-- What is told of an outcome apart from the place of a fault. -/
def unplacedOutcome {α : Type} (x : Except Diagnostic α) : Except Fault α := x.mapError Diagnostic.fault

theorem unplacedOutcome_eq_ok {α : Type} {x : Except Diagnostic α} {a : α} :
    unplacedOutcome x = .ok a ↔ x = .ok a := by
  cases x with
  | ok b =>
    change Except.ok b = .ok a ↔ _
    simp
  | error d =>
    change Except.error d.fault = .ok a ↔ _
    simp

theorem unplacedOutcome_eq_error {α : Type} {x : Except Diagnostic α} {f : Fault} :
    unplacedOutcome x = .error f ↔ ∃ d, x = .error d ∧ d.fault = f := by
  cases x with
  | ok b =>
    change Except.ok b = .error f ↔ _
    simp
  | error d =>
    change Except.error d.fault = .error f ↔ _
    simp

theorem Alike.bind_outcome {σ τ α β γ : Type} {R : σ → τ → Prop} {Q : α → β → Prop}
    {x : EStateM.Result Diagnostic σ α} {y : EStateM.Result Diagnostic τ β} {f : α → Except Diagnostic γ}
    {g : β → Except Diagnostic γ} (h : Alike R Q x y)
    (hrest : ∀ a b, Q a b → unplacedOutcome (g b) = unplacedOutcome (f a)) :
    unplacedOutcome (answer y >>= g) = unplacedOutcome (answer x >>= f) := by
  obtain ⟨a, s, b, t, rfl, rfl, hQ, -⟩ | ⟨d, s, e, t, rfl, rfl, hfault, -⟩ := h.cases
  · exact hrest a b hQ
  · exact congrArg Except.error hfault

namespace Cursor

/-- Cursors on the first of the same lexemes. -/
theorem sameText_ofTokens {tokens tokens' : List Token} (file file' : String)
    (h : tokens'.map Token.lexeme = tokens.map Token.lexeme) :
    (ofTokens file tokens).SameText (ofTokens file' tokens') := by
  have hlast := congrArg List.getLast? h
  have hinit := congrArg List.dropLast h
  rw [List.getLast?_map, List.getLast?_map] at hlast
  rw [← List.map_dropLast, ← List.map_dropLast] at hinit
  unfold ofTokens
  cases hl : tokens.getLast? with
  | none =>
    rw [hl, Option.map_none, Option.map_eq_none_iff] at hlast
    rw [hlast]
    exact ⟨rfl, rfl⟩
  | some last =>
    rw [hl, Option.map_some, Option.map_eq_some_iff] at hlast
    obtain ⟨last', hl', hlexeme⟩ := hlast
    have hkind : last'.kind = last.kind := congrArg Lexeme.kind hlexeme
    have hvalue : last'.value = last.value := congrArg Lexeme.value hlexeme
    simp only [hl', hkind]
    split
    · exact ⟨hinit, hvalue⟩
    · exact ⟨h, rfl⟩

end Cursor

namespace Program

/-- The text of the module of a program. -/
def compile (p : Program) (options : Options) : Except Diagnostic String := do
  let typed ← answer (p.check options)
  let m ← answer (typed.lower options)
  return m.text

/-- A program compiles to the same text wherever its parts stand. -/
theorem compile_relocated (p : Program) (φ : Span → Span) (options : Options) :
    unplacedOutcome ((p.relocated φ).compile options) = unplacedOutcome (p.compile options) := by
  have hcheck : Alike (Checker.Coupled fun _ => True) (fun a b => b = a.relocated φ) (p.check options)
      ((p.relocated φ).check options) := by
    refine Checking.checkProgram_alike p _ _ ⟨rfl, rfl, rfl, rfl, rfl, rfl, rfl, ?_, fun _ => rfl, ?_⟩
    · exact fun _ _ => trivial
    · intro name signature signature' _ hs hs'
      cases hs.symm.trans hs'
      exact ⟨rfl, rfl, rfl, rfl⟩
  refine hcheck.bind_outcome ?_
  rintro typed _ rfl
  have hlower : Alike (Emitter.Coupled φ) (fun a b => b = a) (typed.lower options)
      ((typed.relocated φ).lower options) :=
    Lowering.lowerProgram_alike options _ _ ⟨rfl, rfl, rfl, rfl, rfl, rfl, rfl, rfl⟩
  refine hlower.bind_outcome ?_
  rintro _ m rfl
  rfl

/-- Programs that are the same up to places compile to the same text. -/
theorem compile_of_unplaced {p q : Program} (h : q.unplaced = p.unplaced) (options : Options) :
    unplacedOutcome (q.compile options) = unplacedOutcome (p.compile options) := by
  rw [unplaced_eq, unplaced_eq] at h
  rw [← compile_relocated q, h, compile_relocated p]

end Program

theorem compileSource_eq {source file : String} {tokens : List Token}
    (h : tokenize source file = .ok tokens) (options : Options) :
    compileSource source file options =
      answer (Program.ofTokens file tokens) >>= (·.compile options) := by
  have hsource : Program.ofSource source file = answer (Program.ofTokens file tokens) := by
    unfold Program.ofSource
    simp only [h]
    cases Program.ofTokens file tokens <;> rfl
  unfold compileSource checkSource
  rw [hsource]
  cases answer (Program.ofTokens file tokens) <;> rfl

/-- Sources with the same lexemes compile to the same text, or both fail with the same fault. -/
theorem compileSource_of_lexemes {source source' file file' : String} {tokens tokens' : List Token}
    (h : tokenize source file = .ok tokens) (h' : tokenize source' file' = .ok tokens')
    (hlexemes : tokens'.map Token.lexeme = tokens.map Token.lexeme) (options : Options) :
    unplacedOutcome (compileSource source' file' options) =
      unplacedOutcome (compileSource source file options) := by
  rw [compileSource_eq h, compileSource_eq h']
  have hread : Alike Cursor.SameText (fun p q => q.unplaced = p.unplaced)
      (Program.ofTokens file tokens) (Program.ofTokens file' tokens') :=
    Reading.program_alike .standard _ _ (Cursor.sameText_ofTokens file file' hlexemes)
  exact hread.bind_outcome fun p q hpq => Program.compile_of_unplaced hpq options

/-- Sources whose lexemes are found to be the same. -/
theorem sameLexemes_of_decide (source file source' file' : String)
    (h : (match tokenize source file, tokenize source' file' with
      | .ok tokens, .ok tokens' => decide (tokens'.map Token.lexeme = tokens.map Token.lexeme)
      | _, _ => false) = true) :
    ∃ tokens tokens', tokenize source file = .ok tokens ∧ tokenize source' file' = .ok tokens' ∧
      tokens'.map Token.lexeme = tokens.map Token.lexeme := by
  split at h
  · next tokens tokens' ht ht' => exact ⟨tokens, tokens', ht, ht', of_decide_eq_true h⟩
  · cases h

/-- One program on a line and on several, and one fault at two places. -/
theorem compileSource_of_lexemes_reformatted :
    (∃ text, compileSource "fn f(n)\x7breturn n+1;\x7d print f(2);" "a" {} = .ok text ∧
      compileSource "fn f(n) \x7b // adds\n  return n + 1;\n\x7d\n\nprint f( 2 ) ;\n" "b" {} =
        .ok text) ∧
      compileSource "x=y;" "a" {} = .error ⟨.undeclaredName "y", ⟨2, "a"⟩⟩ ∧
      ∃ d, compileSource "// sets\n x = y;" "b" {} = .error d ∧ d.fault = .undeclaredName "y" := by
  constructor
  · obtain ⟨text, htext, -⟩ := exists_ok_of_decide (P := fun _ => True)
      (x := compileSource "fn f(n)\x7breturn n+1;\x7d print f(2);" "a" {}) (by decide +kernel)
    obtain ⟨tokens, tokens', h, h', hl⟩ := sameLexemes_of_decide
      "fn f(n)\x7breturn n+1;\x7d print f(2);" "a"
      "fn f(n) \x7b // adds\n  return n + 1;\n\x7d\n\nprint f( 2 ) ;\n" "b" (by decide +kernel)
    have hsame := compileSource_of_lexemes h h' hl {}
    rw [htext] at hsame
    exact ⟨text, htext, unplacedOutcome_eq_ok.mp hsame⟩
  · have hfault : compileSource "x=y;" "a" {} = .error ⟨.undeclaredName "y", ⟨2, "a"⟩⟩ :=
      eq_error_of_decide (by decide +kernel)
    obtain ⟨tokens, tokens', h, h', hl⟩ := sameLexemes_of_decide "x=y;" "a" "// sets\n x = y;" "b"
      (by decide +kernel)
    have hsame := compileSource_of_lexemes h h' hl {}
    rw [hfault] at hsame
    exact ⟨hfault, unplacedOutcome_eq_error.mp hsame⟩

end Numlet
