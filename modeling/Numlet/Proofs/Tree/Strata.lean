import Numlet.Proofs.Tree.Unplaced
import Numlet.Tree.ReadExpr

/-!
The grammar of expressions, in strata from the loosest to the tightest. An assignment groups to the right
and every operator of two operands to the left; a conversion stands after its operand and a sign before
it. Only a name can be called or stepped, but it may stand in parentheses.
-/
namespace Numlet

inductive Stratum
  | expression | logical | relational | additive | multiplicative | conversion | unary | applied | atom
deriving DecidableEq, Repr

/-- Every stratum holds the next tighter one. -/
def Stratum.tighter? : Stratum → Option Stratum
  | expression => some logical
  | logical => some relational
  | relational => some additive
  | additive => some multiplicative
  | multiplicative => some conversion
  | conversion => some unary
  | unary => some applied
  | applied => some atom
  | atom => none

/-- The operators of two operands, with their strata. -/
def BinaryOp.stratum? : Kind → Option (Stratum × BinaryOp)
  | .and => some (.logical, .and)
  | .or => some (.logical, .or)
  | .less => some (.relational, .less)
  | .lessEquals => some (.relational, .lessEquals)
  | .greater => some (.relational, .greater)
  | .greaterEquals => some (.relational, .greaterEquals)
  | .equals => some (.relational, .equals)
  | .notEquals => some (.relational, .notEquals)
  | .plus => some (.additive, .add)
  | .dash => some (.additive, .subtract)
  | .star => some (.multiplicative, .multiply)
  | .slash => some (.multiplicative, .divide)
  | .percent => some (.multiplicative, .remainder)
  | _ => none

/-- The operators of compound assignments. -/
def BinaryOp.ofCompound? : Kind → Option BinaryOp
  | .plusEquals => some .add
  | .minusEquals => some .subtract
  | .starEquals => some .multiply
  | .slashEquals => some .divide
  | _ => none

def UnaryOp.ofKind? : Kind → Option UnaryOp
  | .plus => some .plus
  | .dash => some .negate
  | .not => some .not
  | _ => none

def UpdateOp.ofKind? : Kind → Option UpdateOp
  | .plusPlus => some .increment
  | .minusMinus => some .decrement
  | _ => none

theorem UnaryOp.kind_of_ofKind? {k : Kind} {op : UnaryOp} (h : ofKind? k = some op) :
    k = .plus ∧ op = .plus ∨ k = .dash ∧ op = .negate ∨ k = .not ∧ op = .not := by
  cases k with
  | plus => cases h; exact .inl ⟨rfl, rfl⟩
  | dash => cases h; exact .inr (.inl ⟨rfl, rfl⟩)
  | not => cases h; exact .inr (.inr ⟨rfl, rfl⟩)
  | _ => cases h

theorem UpdateOp.kind_of_ofKind? {k : Kind} {op : UpdateOp} (h : ofKind? k = some op) :
    k = .plusPlus ∧ op = .increment ∨ k = .minusMinus ∧ op = .decrement := by
  cases k with
  | plusPlus => cases h; exact .inl ⟨rfl, rfl⟩
  | minusMinus => cases h; exact .inr ⟨rfl, rfl⟩
  | _ => cases h

/-- A token that lengthens the expression before it. -/
def Kind.lengthens : Kind → Bool
  | .assignment | .plusEquals | .minusEquals | .starEquals | .slashEquals
  | .and | .or | .less | .lessEquals | .greater | .greaterEquals | .equals | .notEquals
  | .plus | .dash | .star | .slash | .percent | .asWord | .openParen | .plusPlus | .minusMinus => true
  | _ => false

/-- A name in any number of parentheses. -/
inductive Names : List Lexeme → String → Prop
  | word {word : Lexeme} (hword : word.kind = .identifier) : Names [word] word.value
  | group {p : List Lexeme} {name : String} {first last : Lexeme} (hfirst : first.kind = .openParen)
      (hlast : last.kind = .closeParen) (hp : Names p name) : Names (first :: (p ++ [last])) name

mutual

/-- What the lexemes of an expression in a stratum derive. -/
inductive Derives : Stratum → List Lexeme → Expr → Prop
  | tighter {σ τ : Stratum} {p : List Lexeme} {t : Expr} (hσ : σ.tighter? = some τ) (ht : Derives τ p t) :
    Derives σ p t
  | assign {p q : List Lexeme} {l r : Expr} {sign : Lexeme} (hsign : sign.kind = .assignment)
      (hl : Derives .logical p l) (hr : Derives .expression q r) :
    Derives .expression (p ++ sign :: q) (.assign l r .nowhere)
  | compound {p q : List Lexeme} {l r : Expr} {sign : Lexeme} {op : BinaryOp}
      (hsign : BinaryOp.ofCompound? sign.kind = some op) (hl : Derives .logical p l)
      (hr : Derives .expression q r) :
    Derives .expression (p ++ sign :: q) (.assign l (.binary op l r .nowhere) .nowhere)
  | binary {σ τ : Stratum} {p q : List Lexeme} {l r : Expr} {sign : Lexeme} {op : BinaryOp}
      (hsign : BinaryOp.stratum? sign.kind = some (σ, op)) (hσ : σ.tighter? = some τ)
      (hl : Derives σ p l) (hr : Derives τ q r) :
    Derives σ (p ++ sign :: q) (.binary op l r .nowhere)
  | convert {p : List Lexeme} {t : Expr} {sign word : Lexeme} {type : NumType} (hp : Derives .conversion p t)
      (hsign : sign.kind = .asWord) (hword : word.kind = .identifier)
      (htype : NumType.ofName? word.value = some type) :
    Derives .conversion (p ++ [sign, word]) (.convert t none type .nowhere)
  | unary {p : List Lexeme} {t : Expr} {sign : Lexeme} {op : UnaryOp}
      (hsign : UnaryOp.ofKind? sign.kind = some op) (hp : Derives .unary p t) :
    Derives .unary (sign :: p) (.unary op t .nowhere)
  | call {p q : List Lexeme} {callee : String} {arguments : List Expr} {first last : Lexeme}
      (hp : Names p callee) (hfirst : first.kind = .openParen) (hq : DerivesArguments q arguments)
      (hlast : last.kind = .closeParen) :
    Derives .applied (p ++ first :: (q ++ [last])) (.call callee arguments .nowhere)
  | update {p : List Lexeme} {target : String} {sign : Lexeme} {op : UpdateOp} (hp : Names p target)
      (hsign : UpdateOp.ofKind? sign.kind = some op) :
    Derives .applied (p ++ [sign]) (.update op target .nowhere .nowhere)
  | number {word : Lexeme} {value : Literal} (hword : word.kind = .number)
      (hvalue : Reading.literal? word.value = some value) :
    Derives .atom [word] (.literal value .nowhere)
  | trueWord {word : Lexeme} (hword : word.kind = .trueWord) :
    Derives .atom [word] (.literal (.int 1) .nowhere)
  | falseWord {word : Lexeme} (hword : word.kind = .falseWord) :
    Derives .atom [word] (.literal (.int 0) .nowhere)
  | name {word : Lexeme} (hword : word.kind = .identifier) : Derives .atom [word] (.var word.value .nowhere)
  | group {p : List Lexeme} {t : Expr} {first last : Lexeme} (hfirst : first.kind = .openParen)
      (hp : Derives .expression p t) (hlast : last.kind = .closeParen) :
    Derives .atom (first :: (p ++ [last])) t

/-- The arguments of a call; a comma may follow the last one. -/
inductive DerivesArguments : List Lexeme → List Expr → Prop
  | none : DerivesArguments [] []
  | last {p : List Lexeme} {t : Expr} (hp : Derives .expression p t) : DerivesArguments p [t]
  | more {p q : List Lexeme} {t : Expr} {ts : List Expr} {comma : Lexeme} (hp : Derives .expression p t)
      (hcomma : comma.kind = .comma) (hq : DerivesArguments q ts) :
    DerivesArguments (p ++ comma :: q) (t :: ts)

end

/-- A token that begins an expression. -/
def Kind.begins : Kind → Bool
  | .number | .trueWord | .falseWord | .identifier | .dash | .plus | .not | .openParen => true
  | _ => false

namespace Stratum

/-- The stratum whose operators have a rank no lower than the given one. -/
def ofRank : Nat → Stratum
  | 0 | 1 | 2 => expression
  | 3 => logical
  | 4 => relational
  | 5 => additive
  | 6 => multiplicative
  | 7 => conversion
  | _ => unary

end Stratum

namespace Derives

variable {p : List Lexeme} {t : Expr}

theorem loosen_one {n : Nat} (h : Derives (.ofRank (n + 1)) p t) : Derives (.ofRank n) p t := by
  match n, h with
  | 0, h | 1, h => exact h
  | 2, h | 3, h | 4, h | 5, h | 6, h | 7, h => exact .tighter rfl h
  | _ + 8, h => exact h

theorem loosen {n m : Nat} (hle : n ≤ m) (h : Derives (.ofRank m) p t) : Derives (.ofRank n) p t := by
  induction hle with
  | refl => exact h
  | step _ ih => exact ih h.loosen_one

theorem of_unary (h : Derives .unary p t) (n : Nat) : Derives (.ofRank n) p t := by
  by_cases hn : n ≤ 8
  · exact loosen hn h
  · obtain ⟨m, rfl⟩ : ∃ m, n = m + 8 := ⟨n - 8, by omega⟩
    exact h

theorem of_applied (h : Derives .applied p t) : Derives .unary p t := .tighter rfl h

theorem of_atom (h : Derives .atom p t) : Derives .unary p t := of_applied (.tighter rfl h)

/-- What derives a name is the name in parentheses. -/
theorem names {σ : Stratum} {p : List Lexeme} {t : Expr} {name : String} {span : Span}
    (h : Derives σ p t) (ht : t = .var name span) : Names p name := by
  match h with
  | .tighter _ h => exact h.names ht
  | .name hword =>
    cases ht
    exact .word hword
  | .group hfirst hp hlast => exact .group hfirst hlast (hp.names ht)
  | .assign .. | .compound .. | .binary .. | .convert .. | .unary .. | .call .. | .update .. | .number ..
  | .trueWord .. | .falseWord .. => cases ht

end Derives

theorem Names.begins {p : List Lexeme} {name : String} (h : Names p name) :
    ∃ first rest, p = first :: rest ∧ first.kind.begins = true := by
  cases h with
  | word hword => exact ⟨_, [], rfl, by rw [hword]; rfl⟩
  | group hfirst => exact ⟨_, _, rfl, by rw [hfirst]; rfl⟩

theorem Derives.begins {σ : Stratum} {p : List Lexeme} {t : Expr} (h : Derives σ p t) :
    ∃ first rest, p = first :: rest ∧ first.kind.begins = true := by
  have happend : ∀ {p q : List Lexeme}, (∃ first rest, p = first :: rest ∧ first.kind.begins = true) →
      ∃ first rest, p ++ q = first :: rest ∧ first.kind.begins = true := by
    rintro p q ⟨first, rest, rfl, hfirst⟩
    exact ⟨first, rest ++ q, rfl, hfirst⟩
  match h with
  | .tighter _ h => exact h.begins
  | .assign _ hl _ | .compound _ hl _ | .binary _ _ hl _ | .convert hl _ _ _ => exact happend hl.begins
  | .call hp _ _ _ | .update hp _ => exact happend hp.begins
  | .unary hsign _ =>
    refine ⟨_, _, rfl, ?_⟩
    obtain ⟨hk, -⟩ | ⟨hk, -⟩ | ⟨hk, -⟩ := UnaryOp.kind_of_ofKind? hsign <;> rw [hk] <;> rfl
  | .number hword _ | .trueWord hword | .falseWord hword | .name hword =>
    exact ⟨_, [], rfl, by rw [hword]; rfl⟩
  | .group hfirst _ _ => exact ⟨_, _, rfl, by rw [hfirst]; rfl⟩

end Numlet
