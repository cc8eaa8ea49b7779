import Numlet.Tree

/-!
The nodes of a tree and their stretches of source. In a nested tree each node goes from the start of a token to
the end of one and holds its children, which come one after the other. Nested nodes are put together from rows
of them.
-/
namespace Numlet

def Stmt.span : Stmt → Span
  | function _ _ _ _ _ s | declare _ _ _ s | assign _ _ s | branch _ _ _ s | whileLoop _ _ s
  | forLoop _ _ _ _ s | breakLoop s | continueLoop s | returnValue _ s | print _ s | block _ s
  | expression _ s | call _ _ s => s

/-- What has a stretch of source in a tree. -/
inductive SourceNode
  | expr (e : Expr)
  | stmt (s : Stmt)
  | parameter (p : Parameter)

/-- The nodes directly below an expression, in source order. The variable that is stepped is one. -/
def Expr.children : Expr → List SourceNode
  | literal _ _ | var _ _ => []
  | binary _ left right _ => [.expr left, .expr right]
  | unary _ operand _ | convert operand _ _ _ => [.expr operand]
  | update _ target targetSpan _ => [.expr (.var target targetSpan)]
  | assign target value _ => [.expr target, .expr value]
  | call _ arguments _ => arguments.map .expr

/-- The nodes directly below a statement, in source order. The body of a function is a block. -/
def Stmt.children : Stmt → List SourceNode
  | function _ parameters _ body bodySpan _ =>
    parameters.map .parameter ++ [.stmt (.block body bodySpan)]
  | declare _ _ value _ | returnValue value _ => value.toList.map .expr
  | assign target value _ => [.expr target, .expr value]
  | branch condition yes no _ => .expr condition :: .stmt yes :: no.toList.map .stmt
  | whileLoop condition body _ => [.expr condition, .stmt body]
  | forLoop start condition step body _ =>
    start.toList.map .stmt ++ (condition.toList.map .expr ++ (step.toList.map .expr ++ [.stmt body]))
  | breakLoop _ | continueLoop _ => []
  | print value _ | expression value _ => [.expr value]
  | block body _ => body.map .stmt
  | call _ arguments _ => arguments.map .expr

namespace SourceNode

def span : SourceNode → Span
  | expr e => e.span
  | stmt s => s.span
  | parameter p => p.span

def children : SourceNode → List SourceNode
  | expr e => e.children
  | stmt s => s.children
  | parameter _ => []

/-- The one form with children that overlap. The value of a compound assignment holds the target once more, so it
goes as far as the assignment. -/
def IsCompound : SourceNode → Prop
  | expr (.assign _ value span) | stmt (.assign _ value span) => value.span = span
  | _ => False

end SourceNode

def Span.Within (inner outer : Span) : Prop :=
  outer.start.offset ≤ inner.start.offset ∧ inner.stop.offset ≤ outer.stop.offset

def Span.Before (first second : Span) : Prop := first.stop.offset ≤ second.start.offset

/-- A stretch that is not empty, from the start of one token to the end of another. -/
structure Span.Bounded (tokens : List Token) (s : Span) : Prop where
  start : ∃ t ∈ tokens, t.span.start = s.start
  stop : ∃ t ∈ tokens, t.span.stop = s.stop
  lt : s.start.offset < s.stop.offset

/-- Such a stretch inside another one, which is given by its ends. -/
structure Span.Between (tokens : List Token) (lo hi : Nat) (s : Span) : Prop where
  bounded : s.Bounded tokens
  le_start : lo ≤ s.start.offset
  stop_le : s.stop.offset ≤ hi

theorem Span.Between.le {tokens : List Token} {lo hi : Nat} {s : Span} (h : s.Between tokens lo hi) :
    lo ≤ hi := by
  have hlo := h.le_start
  have hlt := h.bounded.lt
  have hhi := h.stop_le
  omega

/-- A node and all nodes below it have their places among the tokens, each inside the one above it. -/
inductive SourceNode.Nested (tokens : List Token) : SourceNode → Prop
  | intro {n : SourceNode} (bounded : n.span.Bounded tokens)
      (within : ∀ child ∈ n.children, child.span.Within n.span)
      (ordered : ¬n.IsCompound → (n.children.map SourceNode.span).Pairwise Span.Before)
      (below : ∀ child ∈ n.children, child.Nested tokens) : Nested tokens n

/-- Nested nodes one after the other, from an offset to another one. -/
def SourceNode.Row (tokens : List Token) : Nat → Nat → List SourceNode → Prop
  | lo, hi, [] => lo ≤ hi
  | lo, hi, n :: ns => n.Nested tokens ∧ lo ≤ n.span.start.offset ∧ Row tokens n.span.stop.offset hi ns

namespace SourceNode

variable {tokens : List Token} {lo mid hi : Nat} {n : SourceNode} {ns ms : List SourceNode}

theorem Nested.bounded (h : n.Nested tokens) : n.span.Bounded tokens := by
  cases h
  assumption

namespace Row

theorem nil (h : lo ≤ hi) : Row tokens lo hi [] := h

theorem singleton (h : n.Nested tokens) (hlo : lo ≤ n.span.start.offset) (hhi : n.span.stop.offset ≤ hi) :
    Row tokens lo hi [n] := ⟨h, hlo, hhi⟩

theorem le (h : Row tokens lo hi ns) : lo ≤ hi := by
  induction ns generalizing lo with
  | nil => exact h
  | cons n ns ih =>
    obtain ⟨hn, hlo, hrest⟩ := h
    have hlt := hn.bounded.lt
    have hle := ih hrest
    omega

theorem append (h₁ : Row tokens lo mid ns) (h₂ : Row tokens mid hi ms) : Row tokens lo hi (ns ++ ms) := by
  induction ns generalizing lo with
  | nil =>
    cases ms with
    | nil => exact Nat.le_trans h₁ h₂
    | cons m ms => exact ⟨h₂.1, Nat.le_trans h₁ h₂.2.1, h₂.2.2⟩
  | cons n ns ih => exact ⟨h₁.1, h₁.2.1, ih h₁.2.2⟩

/-- A row may be part of a longer stretch. -/
theorem widen {lo' hi' : Nat} (h : Row tokens lo hi ns) (hlo : lo' ≤ lo) (hhi : hi ≤ hi') :
    Row tokens lo' hi' ns := by
  have hwhole := append (nil hlo) (append h (nil hhi))
  rwa [List.nil_append, List.append_nil] at hwhole

theorem extend_left (h : Row tokens mid hi ns) (hlo : lo ≤ mid) : Row tokens lo hi ns :=
  h.widen hlo (Nat.le_refl hi)

theorem extend_right (h : Row tokens lo mid ns) (hhi : mid ≤ hi) : Row tokens lo hi ns :=
  h.widen (Nat.le_refl lo) hhi

theorem sublist (h : Row tokens lo hi ns) (hsub : ms.Sublist ns) : Row tokens lo hi ms := by
  induction hsub generalizing lo with
  | slnil => exact h
  | cons n _ ih =>
    obtain ⟨hn, hlo, hrest⟩ := h
    have hlt := hn.bounded.lt
    exact (ih hrest).extend_left (by omega)
  | cons_cons n _ ih => exact ⟨h.1, h.2.1, ih h.2.2⟩

theorem of_mem (h : Row tokens lo hi ns) (hn : n ∈ ns) :
    n.Nested tokens ∧ lo ≤ n.span.start.offset ∧ n.span.stop.offset ≤ hi :=
  sublist h (List.singleton_sublist.mpr hn)

theorem pairwise (h : Row tokens lo hi ns) : (ns.map span).Pairwise Span.Before := by
  induction ns generalizing lo with
  | nil => exact .nil
  | cons n ns ih =>
    refine List.pairwise_cons.mpr ⟨fun s hs => ?_, ih h.2.2⟩
    obtain ⟨m, hm, rfl⟩ := List.mem_map.mp hs
    exact (h.2.2.of_mem hm).2.1

end Row

/-- A node is nested if its children are a row inside it. -/
theorem Nested.of_row (hbounded : n.span.Bounded tokens)
    (hrow : Row tokens n.span.start.offset n.span.stop.offset n.children) : n.Nested tokens :=
  .intro hbounded (fun _ hm => (hrow.of_mem hm).2) (fun _ => hrow.pairwise) fun _ hm => (hrow.of_mem hm).1

/-- A node with a stretch of its own, which holds its children. -/
theorem Row.of_children {s : Span} (hspan : n.span = s) (hs : s.Between tokens lo hi)
    (hrow : Row tokens s.start.offset s.stop.offset n.children) : Row tokens lo hi [n] := by
  subst hspan
  exact singleton (.of_row hs.bounded hrow) hs.le_start hs.stop_le

/-- A node from the start of one stretch to the end of a later one. -/
theorem Row.spanning {s₁ s₂ : Span} (h₁ : s₁.Between tokens lo mid) (h₂ : s₂.Between tokens mid hi)
    (hspan : n.span = ⟨s₁.start, s₂.stop⟩)
    (hrow : Row tokens s₁.start.offset s₂.stop.offset n.children) : Row tokens lo hi [n] := by
  have hlt : s₁.start.offset < s₂.stop.offset := by
    have hlt₁ := h₁.bounded.lt
    have hle₁ := h₁.stop_le
    have hle₂ := h₂.le_start
    have hlt₂ := h₂.bounded.lt
    omega
  exact of_children hspan ⟨⟨h₁.bounded.start, h₂.bounded.stop, hlt⟩, h₁.le_start, h₂.stop_le⟩ hrow

theorem Row.between (h : Row tokens lo hi [n]) : n.span.Between tokens lo hi := ⟨h.1.bounded, h.2.1, h.2.2⟩

/-- A node that goes from the first of two others to the second and has them as its children. -/
theorem Row.join {a b : SourceNode} (h : Row tokens lo hi [a, b]) (hspan : n.span = ⟨a.span.start, b.span.stop⟩)
    (hchildren : n.children = [a, b]) : Row tokens lo hi [n] := by
  obtain ⟨ha, hlo, hb, hmid, hhi⟩ := h
  have hfirst : a.span.Between tokens lo a.span.stop.offset := ⟨ha.bounded, hlo, Nat.le_refl _⟩
  refine spanning hfirst ⟨hb.bounded, hmid, hhi⟩ hspan ?_
  rw [hchildren]
  exact ⟨ha, Nat.le_refl _, hb, hmid, Nat.le_refl _⟩

/-- An expression as a statement has the place and the children of the expression, or has it as a child. -/
theorem Row.ofExpr {value : Expr} (h : Row tokens lo hi [.expr value]) :
    Row tokens lo hi [.stmt (.ofExpr value)] := by
  obtain ⟨hnested, hlo, hhi⟩ := h
  cases value with
  | assign | call =>
    cases hnested with
    | intro hbounded hwithin hordered hbelow => exact ⟨.intro hbounded hwithin hordered hbelow, hlo, hhi⟩
  | literal | var | binary | unary | update | convert =>
    refine ⟨.of_row hnested.bounded ?_, hlo, hhi⟩
    exact .singleton hnested (Nat.le_refl _) (Nat.le_refl _)

end SourceNode

end Numlet
