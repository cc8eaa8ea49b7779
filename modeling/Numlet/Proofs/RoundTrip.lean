import Numlet.Proofs.Tree.ReadBack

/-!
Reading undoes printing: from the tokens of a printed program the same program is read, apart from its
places. The printed functions stand before the other statements, and are told apart from them again.
-/
namespace Numlet
open Lexeme (sign)

namespace Program

theorem ofStmts_append {functions : List Function} {body : List Stmt}
    (h : ∀ s ∈ body, s.function? = none) (span : Span) :
    ofStmts (functions.map Function.stmt ++ body) span = ⟨functions, body, span⟩ := by
  have hfunctions : (functions.map Function.stmt).filterMap Stmt.function? = functions := by
    rw [List.filterMap_map]
    exact List.filterMap_some
  have hnone : body.filterMap Stmt.function? = [] := List.filterMap_eq_nil_iff.mpr h
  have hbody : body.filter (·.function?.isNone) = body :=
    List.filter_eq_self.mpr fun s hs => by rw [h s hs]; rfl
  have hempty : (functions.map Function.stmt).filter (·.function?.isNone) = [] := by
    rw [List.filter_eq_nil_iff]
    intro s hs
    obtain ⟨f, -, rfl⟩ := List.mem_map.mp hs
    simp [Function.stmt, Stmt.function?]
  simp only [ofStmts, List.filterMap_append, List.filter_append, hfunctions, hnone, hbody, hempty,
    List.append_nil, List.nil_append]

end Program

theorem Cursor.lexemes_ofTokens {last : Token} (h : last.kind = .eof) (file : String) (tokens : List Token) :
    (ofTokens file (tokens ++ [last])).lexemes = tokens.map Token.lexeme := by
  unfold ofTokens lexemes
  simp only [List.getLast?_concat, if_pos h, List.dropLast_concat]

namespace Program

variable {written : Binary64 → String} {p : Program}

theorem Printable.stmts (h : p.Printable written) :
    PrintableStmts written (p.functions.map Function.stmt ++ p.body) := by
  have happend : ∀ ss : List Stmt, PrintableStmts written ss → PrintableStmts written (ss ++ p.body) := by
    intro ss hss
    induction ss with
    | nil => exact h.body
    | cons s ss ih => exact ⟨hss.1, ih hss.2⟩
  exact happend _ h.functions

/-- The program is read from every cursor that has its lexemes ahead. -/
theorem Printable.takes (h : p.Printable written) {c : Cursor} (hc : c.lexemes = p.printed written) :
    Reading.Takes (Reading.program .standard) c (p.printed written) (·.unplaced = p.unplaced) := by
  have hstmts : Reading.Takes (Reading.many .eof (Reading.stmt .standard)) c (p.printed written) _ :=
    Reading.stmts_takes rfl Kind.noConfusion (fun _ _ => rfl) _ h.stmts
      (fun s hs => stmts_restored _ h.stmts s hs (c.remaining + 1)) (Nat.lt_succ_self _)
      (hc.trans (List.append_nil _).symm) rfl
  refine hstmts.bind (fun ss c' _ hss => ⟨_, c', rfl, .refl c', ?_⟩) (List.append_nil _)
  change (ofStmts ss _).unplaced = p.unplaced
  rw [unplaced_ofStmts, hss, ← unplaced_ofStmts _ .nowhere, ofStmts_append h.noFunction]
  rfl

end Program

/-- From the tokens of a printed program and an end mark the same program is read, apart from places. -/
theorem ofTokens_printed {written : Binary64 → String} {p : Program} (h : p.Printable written)
    (file : String) {tokens : List Token} {last : Token} (htokens : tokens.map Token.lexeme = p.printed written)
    (hlast : last.kind = .eof) :
    ∃ q c', Program.ofTokens file (tokens ++ [last]) = .ok q c' ∧ q.unplaced = p.unplaced := by
  obtain ⟨q, c', hrun, -, hq⟩ := h.takes ((Cursor.lexemes_ofTokens hlast file tokens).trans htokens)
  exact ⟨q, c', hrun, hq⟩

/-- A function with a chain of branchings, and a loop around expressions of all strata. -/
def nestedProgram : Program where
  functions := [{
    name := "f", parameters := [⟨"x", some .f64, .nowhere⟩, ⟨"y", none, .nowhere⟩], result := some .f64
    body := [
      .branch (.unary .not (.binary .less (.var "x" .nowhere) (.var "y" .nowhere) .nowhere) .nowhere)
        (.block [.returnValue (some (.literal (.fraction ⟨4609434218613702656⟩) .nowhere)) .nowhere] .nowhere)
        (some (.branch (.var "y" .nowhere) (.block [] .nowhere) (some (.block [.breakLoop .nowhere] .nowhere))
          .nowhere)) .nowhere]
    bodySpan := .nowhere, span := .nowhere }]
  body := [
    .forLoop (some (.declare "i" none (some (.literal (.int 0) .nowhere)) .nowhere)) none
      (some (.assign (.var "i" .nowhere) (.binary .subtract (.literal (.int 9223372036854775807) .nowhere)
        (.binary .subtract (.var "i" .nowhere) (.update .increment "i" .nowhere .nowhere) .nowhere) .nowhere)
        .nowhere))
      (.block [.print (.binary .multiply (.assign (.var "i" .nowhere) (.var "j" .nowhere) .nowhere)
        (.convert (.unary .negate (.call "f" [.var "i" .nowhere, .literal (.int 2) .nowhere] .nowhere) .nowhere)
          none .i64 .nowhere) .nowhere) .nowhere] .nowhere) .nowhere]
  bodySpan := .nowhere

theorem nested_ofTokens_printed :
    (nestedProgram.printed fun _ => "1.5").map (·.value) = ["fn", "f", "(", "x", ":", "f64", ",", "y", ")",
      "->", "f64", "\x7b", "if", "!", "(", "x", "<", "y", ")", "\x7b", "return", "1.5", ";", "\x7d", "else",
      "if", "y", "\x7b", "\x7d", "else", "\x7b", "break", ";", "\x7d", "\x7d", "for", "(", "let", "i", "=", "0",
      ";", ";", "i", "=", "9223372036854775807", "-", "(", "i", "-", "i", "++", ")", ")", "\x7b", "print", "(",
      "i", "=", "j", ")", "*", "-", "f", "(", "i", ",", "2", ")", "as", "i64", ";", "\x7d"] ∧
    ∃ q c', Program.ofTokens "" ((nestedProgram.printed fun _ => "1.5").map (fun l =>
      ⟨l.kind, l.value, .nowhere⟩) ++ [⟨.eof, "", .nowhere⟩]) = .ok q c' ∧ q.unplaced = nestedProgram := by
  have hprintable : nestedProgram.Printable fun _ => "1.5" := by
    constructor
    · simp only [nestedProgram, Function.stmt, List.map_cons, List.map_nil, PrintableStmts, Stmt.Printable,
        PrintableElse, Expr.Printable, PrintableExpr?, Literal.Printable, Option.mem_def, Option.some.injEq,
        forall_eq']
      decide +kernel
    · simp only [nestedProgram, PrintableStmts, Stmt.Printable, PrintableStart, Expr.Printable,
        PrintableExprs, PrintableExpr?, Literal.Printable, Option.mem_def, Option.some.injEq, forall_eq',
        reduceCtorEq, false_implies, implies_true]
      decide +kernel
    · decide
  refine ⟨by decide +kernel, ?_⟩
  have htokens : ((nestedProgram.printed fun _ => "1.5").map fun l =>
      (⟨l.kind, l.value, .nowhere⟩ : Token)).map Token.lexeme = nestedProgram.printed fun _ => "1.5" := by
    rw [List.map_map]
    exact List.map_id _
  exact ofTokens_printed hprintable "" htokens rfl

end Numlet
