import Numlet.Proofs.Tree.Reached

/-!
The reading of expressions accepts exactly the grammar. It takes the longest stretch of tokens that it can:
what it reads is derived, and it ends before a token that does not lengthen an expression.
-/
namespace Numlet
open Reading

theorem Kind.rank_level_eq_zero_iff (k : Kind) :
    (Grammar.standard.level k).rank = 0 ↔ k.lengthens = false := by
  cases k <;> decide

/-- From any cursor an expression is read as `t`, passing the tokens `p`, exactly if the grammar derives `t`
from `p`, the tokens ahead begin with `p`, and the one after them does not lengthen an expression. -/
theorem expr_reads_iff_derives (c : Cursor) (p : List Token) (t : Expr) :
    (∃ e c', expr .standard .weakest c = .ok e c' ∧ c.ahead = p ++ c'.ahead ∧ e.unplaced = t) ↔
      Derives .expression (p.map Token.lexeme) t ∧
        ∃ rest, c.ahead = p ++ rest ∧ (Lexeme.firstKind (rest.map Token.lexeme)).lengthens = false := by
  constructor
  · rintro ⟨e, c', hrun, hahead, rfl⟩
    obtain ⟨q, ⟨taken, htaken, rfl⟩, hq, hstop⟩ := expr_derives hrun
    obtain rfl : taken = p := List.append_cancel_right (htaken.symm.trans hahead)
    refine ⟨hq, c'.ahead, hahead, ?_⟩
    rw [rank_eq (c := c') rfl] at hstop
    exact (Kind.rank_level_eq_zero_iff _).mp (Nat.le_zero.mp hstop)
  · rintro ⟨hp, rest, hahead, hrest⟩
    have hlexemes : c.lexemes = p.map Token.lexeme ++ rest.map Token.lexeme := by
      rw [Cursor.lexemes, hahead, List.map_append]
    obtain ⟨e, c', hrun, ⟨taken, htaken, hmap⟩, ht⟩ :=
      hp.takes hlexemes ((Kind.rank_level_eq_zero_iff _).mpr hrest)
    have hlength : taken.length = p.length := by simpa using congrArg List.length hmap
    obtain ⟨rfl, -⟩ := List.append_inj (htaken.symm.trans hahead) hlength
    exact ⟨e, c', hrun, htaken, ht⟩

end Numlet
