import Numlet.Proofs.Tokenization
import Numlet.Proofs.Tree.Layout
import Numlet.Proofs.Tree.Spelled

/-!
The stretches of source of a program that is read nest. Each node goes from the start of a token to the end of
one and lies inside the node above it, and nodes side by side do not overlap.
-/
namespace Numlet

namespace Program

/-- The nodes that are below no other one. -/
inductive IsRoot (p : Program) : SourceNode → Prop
  | function {f : Function} (h : f ∈ p.functions) : IsRoot p (.stmt f.stmt)
  | body {s : Stmt} (h : s ∈ p.body) : IsRoot p (.stmt s)

/-- All nodes of a program. -/
inductive HasNode (p : Program) : SourceNode → Prop
  | root {n : SourceNode} (h : p.IsRoot n) : HasNode p n
  | child {n child : SourceNode} (h : p.HasNode n) (hchild : child ∈ n.children) : HasNode p child

/-- How the nodes of a program lie among tokens and to each other. Functions are kept apart from the other
statements of the program, so each of the two lists is in order. -/
structure Nests (tokens : List Token) (p : Program) : Prop where
  bounded : ∀ n, p.HasNode n → n.span.Bounded tokens
  within : ∀ n, p.HasNode n → ∀ child ∈ n.children, child.span.Within n.span
  ordered : ∀ n, p.HasNode n → ¬n.IsCompound → (n.children.map SourceNode.span).Pairwise Span.Before
  roots : ∀ n, p.IsRoot n → n.span.Within p.bodySpan
  functions : (p.functions.map Function.span).Pairwise Span.Before
  body : (p.body.map Stmt.span).Pairwise Span.Before

end Program

open SourceNode (Row)

section Rows

variable {tokens : List Token} {lo hi : Nat} {stmts : List Stmt} {p : Program}

theorem Stmt.functions_sublist (stmts : List Stmt) :
    ((stmts.filterMap Stmt.function?).map Function.stmt).Sublist stmts := by
  induction stmts with
  | nil => exact .slnil
  | cons s stmts ih =>
    cases hs : s.function? with
    | none =>
      rw [List.filterMap_cons_none hs]
      exact ih.cons s
    | some f =>
      rw [List.filterMap_cons_some hs, List.map_cons, Stmt.function?_eq_some hs]
      exact ih.cons_cons _

theorem Program.nested_of_roots (hroots : ∀ n, p.IsRoot n → n.Nested tokens) {n : SourceNode}
    (h : p.HasNode n) : n.Nested tokens := by
  induction h with
  | root h => exact hroots _ h
  | child _ hchild ih =>
    cases ih with
    | intro _ _ _ below => exact below _ hchild

/-- The parts of a row of statements are rows again. -/
theorem Program.nests_ofStmts {bodySpan : Span} (h : Row tokens lo hi (stmts.map .stmt))
    (hlo : bodySpan.start.offset ≤ lo) (hhi : hi ≤ bodySpan.stop.offset) :
    (Program.ofStmts stmts bodySpan).Nests tokens := by
  have hfunctions := h.sublist ((Stmt.functions_sublist stmts).map SourceNode.stmt)
  have hbody : Row tokens lo hi ((ofStmts stmts bodySpan).body.map .stmt) :=
    h.sublist (List.filter_sublist.map SourceNode.stmt)
  have hroot : ∀ n, (ofStmts stmts bodySpan).IsRoot n →
      n.Nested tokens ∧ lo ≤ n.span.start.offset ∧ n.span.stop.offset ≤ hi := by
    intro n hn
    cases hn with
    | function hf => exact hfunctions.of_mem (List.mem_map_of_mem (List.mem_map_of_mem hf))
    | body hs => exact hbody.of_mem (List.mem_map_of_mem hs)
  have hnested : ∀ n, (ofStmts stmts bodySpan).HasNode n → n.Nested tokens :=
    fun n => nested_of_roots fun m hm => (hroot m hm).1
  refine ⟨fun n hn => (hnested n hn).bounded, fun n hn => ?_, fun n hn => ?_, fun n hn => ?_, ?_, ?_⟩
  · cases hnested n hn with
    | intro _ within _ _ => exact within
  · cases hnested n hn with
    | intro _ _ ordered _ => exact ordered
  · obtain ⟨-, hstart, hstop⟩ := hroot n hn
    exact ⟨Nat.le_trans hlo hstart, Nat.le_trans hstop hhi⟩
  · have hpairwise := hfunctions.pairwise
    rwa [List.map_map, List.map_map] at hpairwise
  · have hpairwise := hbody.pairwise
    rwa [List.map_map] at hpairwise

end Rows

/-- The cursor on the first token of a scanned text. -/
theorem Tiles.ordered {file : String} {cs : List Char} {tokens : List Token} (h : Tiles file 0 cs tokens) :
    ∃ init, tokens = init ++ [.ending ⟨Text.byteLength cs, file⟩] ∧
      (Cursor.ofTokens file tokens).Ordered init := by
  obtain ⟨init, rfl, -, hread, hsorted⟩ := h.exists_init (rfl : Text.byteLength [] = 0)
  refine ⟨init, rfl, ?_⟩
  have hcursor : Cursor.ofTokens file (init ++ [.ending ⟨Text.byteLength cs, file⟩]) =
      { file := file, previous := none, ahead := init, endValue := "EOF"
        endSpan := .empty ⟨Text.byteLength cs, file⟩ } := by
    simp [Cursor.ofTokens, Token.ending]
  rw [List.nil_append, hcursor]
  refine ⟨fun t ht => absurd ht (Option.not_mem_none t), fun t ht => ht, fun t ht => ?_, hsorted, Nat.zero_le _⟩
  obtain ⟨start, stop, after, hlt, hspan, before, htext, hbefore, hstop⟩ := hread t ht
  refine ⟨⟨⟨t, ht, rfl⟩, ⟨t, ht, rfl⟩, ?_⟩, Nat.zero_le _, ?_⟩
  · rw [hspan]
    exact hlt
  · have hlength := congrArg Text.byteLength htext
    rw [List.nil_append, Text.byteLength_append, Text.byteLength_append] at hlength
    rw [hspan]
    change stop ≤ Text.byteLength cs
    omega

theorem Reading.program_nests {tokens : List Token} {c c' : Cursor} {p : Program} (hc : c.Ordered tokens)
    (h : program .standard c = .ok p c') : p.Nests tokens := by
  obtain ⟨stmts, c₁, hmany, h⟩ := bind_eq_ok.mp h
  obtain ⟨hc₁, hrow⟩ := Rows.many .eof stmt_rows c hc stmts c₁ hmany
  cases h
  exact Program.nests_ofStmts hrow (Nat.zero_le _) hc₁.reach_le_position

/-- The nodes of a program nest among the tokens of its source. -/
theorem Program.spans_nest {source file : String} {p : Program}
    (hsize : Text.byteLength source.toList < 4294967296) (h : Program.ofSource source file = .ok p) :
    ∃ tokens, tokenize source file = .ok (tokens ++ [.ending ⟨Text.byteLength source.toList, file⟩]) ∧
      p.Nests tokens := by
  unfold Program.ofSource at h
  cases htokens : tokenize source file with
  | error d =>
    rw [htokens] at h
    cases h
  | ok all =>
    have htiles : Tiles file 0 source.toList all := scan_tiles (by rwa [Nat.zero_add]) htokens
    obtain ⟨tokens, hall, hordered⟩ := htiles.ordered
    rw [htokens] at h
    refine ⟨tokens, congrArg Except.ok hall, ?_⟩
    cases hread : Program.ofTokens file all with
    | error d c =>
      simp only [hread] at h
      cases h
    | ok q c =>
      simp only [hread] at h
      cases h
      exact Reading.program_nests hordered hread

/-- Parentheses around an operand, an argument and the target of a compound assignment. -/
def groupedSource : String := "print 1; fn f(a, b: f64) \x7b(a) += (b * 2); return a;\x7d x = f(1, (2));"

/-- A function between two statements. The stretch of an expression leaves its semicolon out. -/
theorem Program.spans_nest_with_groups :
    Text.byteLength groupedSource.toList = 67 ∧ ∃ p, Program.ofSource groupedSource "" = .ok p ∧
      (p.functions.map (·.span) = [.ofLength "" 9 43] ∧
        p.body.map Stmt.span = [.ofLength "" 0 8, .ofLength "" 53 13]) ∧
      ∃ tokens, tokenize groupedSource "" = .ok (tokens ++ [.ending ⟨67, ""⟩]) ∧ p.Nests tokens := by
  have hlength : Text.byteLength groupedSource.toList = 67 := by decide +kernel
  obtain ⟨p, hp, hspans⟩ := exists_ok_of_decide
    (P := fun p : Program => p.functions.map (·.span) = [.ofLength "" 9 43] ∧
      p.body.map Stmt.span = [.ofLength "" 0 8, .ofLength "" 53 13])
    (x := Program.ofSource groupedSource "") (by decide +kernel)
  have hnests := Program.spans_nest (by rw [hlength]; decide) hp
  rw [hlength] at hnests
  exact ⟨hlength, p, hp, hspans, hnests⟩

end Numlet
