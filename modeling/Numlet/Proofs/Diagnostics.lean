import Numlet.Proofs.Check.Blame
import Numlet.Proofs.Check.Programs
import Numlet.Proofs.Code.Blame
import Numlet.Proofs.Formatting
import Numlet.Proofs.Token.Standing
import Numlet.Proofs.Tree.Blame

/-!
Every diagnostic points at a real place of the source. Main statement: `compileSource_error_place`.
-/
namespace Numlet

variable {source file : String} {tokens : List Token} {options : Options} {d : Diagnostic}

/-- A diagnostic is about the first character that no pattern takes, or it lies where the tokens of the source
say: at the end of a call that lacks arguments or at the start of a token, which may be the end mark. The
tokens are where their characters are. -/
def Diagnostic.PointsInto (source file : String) (d : Diagnostic) : Prop :=
  (∃ before c after, source.toList = before ++ c :: after ∧ Pattern.Reaches source.toList (c :: after) ∧
    Pattern.first? (c :: after) = none ∧ d = ⟨.unrecognisedToken c.toString, .after file before⟩) ∨
  ∃ tokens, tokenize source file = .ok tokens ∧ (∀ t ∈ tokens, t.StandsIn file source.toList) ∧
    (Marks.ofTokens tokens).Admits d

/-- A place between two characters of a text, or at one of its ends. -/
def Position.IsBoundary (file : String) (text : List Char) (place : Position) : Prop :=
  ∃ before after, text = before ++ after ∧ place = .after file before

theorem Token.StandsIn.start {text : List Char} {t : Token} (h : t.StandsIn file text) :
    t.span.start.IsBoundary file text := by
  obtain ⟨before, taken, after, htext, hspan, -⟩ := h
  exact ⟨before, taken ++ after, htext, by rw [hspan]⟩

theorem Token.StandsIn.stop {text : List Char} {t : Token} (h : t.StandsIn file text) :
    t.span.stop.IsBoundary file text := by
  obtain ⟨before, taken, after, htext, hspan, -⟩ := h
  exact ⟨before ++ taken, after, by rw [htext, List.append_assoc], by rw [hspan]⟩

/-- The places that tokens give lie between the characters of the text that they stand in. -/
theorem Marks.Admits.isBoundary {text : List Char} (h : (Marks.ofTokens tokens).Admits d)
    (hstands : ∀ t ∈ tokens, t.StandsIn file text) : d.position.IsBoundary file text := by
  have hstart (hd : (Marks.ofTokens tokens).start d.position) : d.position.IsBoundary file text := by
    obtain ⟨t, ht, hplace⟩ := hd
    exact hplace ▸ (hstands t ht).start
  unfold Marks.Admits at h
  split at h
  · exact h.elim
  · obtain ⟨-, before, spelling, close, after, -, rfl, -, hplace, -⟩ := h
    exact hplace ▸ (hstands close (by simp)).stop
  · exact hstart h

theorem Diagnostic.PointsInto.isBoundary (h : d.PointsInto source file) :
    d.position.IsBoundary file source.toList := by
  obtain ⟨before, c, after, hsource, -, -, rfl⟩ | ⟨tokens, -, hstands, hd⟩ := h
  · exact ⟨before, c :: after, hsource, rfl⟩
  · exact hd.isBoundary hstands

/-- The failure of a phase, or else of what follows. -/
theorem Ends.of_answer {σ α β : Type} {E : Diagnostic → Prop} {P : α → σ → Prop}
    {x : EStateM.Result Diagnostic σ α} {f : α → Except Diagnostic β} (h : Ends E P x)
    (hf : ∀ a s, x = .ok a s → P a s → f a = .error d → E d) (hrun : answer x >>= f = .error d) : E d := by
  cases x with
  | ok a s => exact hf a s rfl h hrun
  | error e s =>
    cases hrun
    exact h

/-- A program that stands where the tokens are fails to compile only at a place that they give. -/
theorem Program.Placed.admits {m : Marks} {p : Program} (hp : p.Placed m)
    (hentry : Text.isWord options.entryName = true) (h : p.compile options = .error d) : m.Admits d := by
  refine (p.check_ends hp hentry).of_answer (fun typed s hcheck htyped hlower => ?_) h
  refine ((ProgramRun.of_check hcheck).lower_ends htyped).of_answer (fun form _ _ _ htext => ?_) hlower
  cases htext

/-- Every diagnostic points at a real place of the source: its file is the one given, and it lies at the
character that no token begins with, at the end of the parenthesis that closes a call without enough
arguments, or at the start of a token. So it lies at most at the end and between two characters. -/
theorem compileSource_error_place (hsize : Text.byteLength source.toList < 4294967296)
    (hentry : Text.isWord options.entryName = true) (h : compileSource source file options = .error d) :
    d.PointsInto source file ∧ d.position.file = file ∧
      d.position.offset ≤ Text.byteLength source.toList ∧
      ∃ before after, source.toList = before ++ after ∧ d.position.offset = Text.byteLength before := by
  have hpoints : d.PointsInto source file := by
    cases htokens : tokenize source file with
    | error e =>
      have he : d = e := by
        unfold compileSource checkSource Program.ofSource at h
        rw [htokens] at h
        cases h
        rfl
      exact .inl (tokenize_fails hsize (he ▸ htokens))
    | ok tokens =>
      refine .inr ⟨tokens, htokens, tokenize_stands hsize htokens, ?_⟩
      obtain ⟨init, place, hinit⟩ := scan_ending htokens
      rw [compileSource_eq htokens] at h
      exact (Program.ofTokens_ends hinit file).of_answer (fun p _ _ hp => hp.admits hentry) h
  obtain ⟨before, after, hsource, hplace⟩ := hpoints.isBoundary
  refine ⟨hpoints, by rw [hplace]; rfl, ?_, before, after, hsource, by rw [hplace]; rfl⟩
  rw [hsource, hplace, Text.byteLength_append]
  exact Nat.le_add_right _ _

/-- A call of a name in parentheses that lacks its second argument, after a character of two bytes. -/
theorem compileSource_error_place_call :
    compileSource "// \u00e9\nfn add(a, b) \x7b return a + b; \x7d print (add)(1,) ;" "f" {} =
        .error ⟨.missingArguments "add" 2 1, ⟨52, "f"⟩⟩ ∧
      Diagnostic.PointsInto "// \u00e9\nfn add(a, b) \x7b return a + b; \x7d print (add)(1,) ;" "f"
        ⟨.missingArguments "add" 2 1, ⟨52, "f"⟩⟩ := by
  have hfault : compileSource "// \u00e9\nfn add(a, b) \x7b return a + b; \x7d print (add)(1,) ;" "f" {} =
      .error ⟨.missingArguments "add" 2 1, ⟨52, "f"⟩⟩ := eq_error_of_decide (by decide +kernel)
  exact ⟨hfault, (compileSource_error_place (by decide +kernel) (by decide +kernel) hfault).1⟩

end Numlet
