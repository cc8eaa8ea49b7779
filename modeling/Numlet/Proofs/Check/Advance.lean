import Mathlib.Logic.Relation
import Numlet.Proofs.Check.Run
import Numlet.Proofs.Tables
import Numlet.Proofs.Tree.Leaves

/-!
What checking can do to the state, apart from the tree that it makes. Expressions take single steps;
statements add returns and inner scopes. Everything that holds along all steps is read off here: what
stays, what only grows, and that a bound name always has storage.
-/
namespace Numlet
open Checking

variable {N : String → Prop}

/-- A step of checking an expression in which only names with `N` are declared. -/
inductive Step (N : String → Prop) : Checker → Checker → Prop
  | report {s : Checker} {event : Event} (he : ∀ f t, event ≠ .resultPinned f t) :
      Step N s (s.reported event)
  | assign {s : Checker} {name : String} {v : Variable} {value type : NumType}
      (hv : s.scope.find? name = some v)
      (ht : NumType.assign? v.type value v.fixed = some type) :
      Step N s (s.assigned name v.slot type)
  | declare {s : Checker} {name : String} {type : NumType} {fixed : Bool} (hn : N name) :
      Step N s (s.declared name type fixed)
  | pin {s : Checker} {callee : String} {signature : Signature}
      (hs : s.signatures.find? callee = some signature)
      (hc : (signature.resultFixed || signature.checked) = false) :
      Step N s (s.pinned callee signature (signature.result.getD .i32))

abbrev Steps (N : String → Prop) : Checker → Checker → Prop := Relation.ReflTransGen (Step N)

/-- What checking statements can do to the state. A return looks at the signature before its value is
checked and sets the result afterwards. -/
inductive Advance (N : String → Prop) : Checker → Checker → Prop
  | steps {s s' : Checker} (h : Steps N s s') : Advance N s s'
  | trans {s s₁ s₂ : Checker} (h₁ : Advance N s s₁) (h₂ : Advance N s₁ s₂) : Advance N s s₂
  | bare {s : Checker} {f : String} {signature : Signature} (hf : s.scope.function = some f)
      (hs : s.signatures.find? f = some signature) (hr : signature.result = none) :
      Advance N s { s with bareReturn := true }
  | valued {s : Checker} {f : String} {signature : Signature} (hf : s.scope.function = some f)
      (hs : s.signatures.find? f = some signature)
      (hr : signature.resultFixed = true ∨ signature.result.isSome = true)
      (hb : s.bareReturn = false) : Advance N s { s with valuedReturn := true }
  | infer {s s₁ : Checker} {f : String} {signature current : Signature} {type : NumType}
      (hf : s.scope.function = some f) (hs : s.signatures.find? f = some signature)
      (hx : signature.resultFixed = false) (h : Steps N s s₁)
      (hc : s₁.signatures.find? f = some current) :
      Advance N s (s₁.withSignature f
        { current with result := some (NumType.joinKnown signature.result (some type)) })
  | inner {s s₁ : Checker} {scope : Scope} (hb : scope.bindings = s.scope.bindings)
      (hf : scope.function = s.scope.function) (h : Advance N (s.withScope scope) s₁) :
      Advance N s (s₁.withScope s.scope)

mutual

theorem ExprRun.steps {e : Expr} {hint : Option NumType} {s s' : Checker} {t : Typed.Expr}
    (h : ExprRun e hint s t s') (hn : ∀ x ∈ e.names, N x) : Steps N s s' := by
  match h with
  | .literal | .var _ | .update _ => exact .refl
  | .binary hl hr _ _ =>
    simp only [Expr.names, List.mem_append] at hn
    exact (hl.steps fun x hx => hn x (.inl hx)).trans (hr.steps fun x hx => hn x (.inr hx))
  | .widened hl hr _ ha _ =>
    simp only [Expr.names, List.mem_append] at hn
    exact ((hl.steps fun x hx => hn x (.inl hx)).trans (hr.steps fun x hx => hn x (.inr hx))).trans
      (ha.steps fun x hx => hn x (.inl hx))
  | .unary h => exact h.steps hn
  | .assign h =>
    simp only [Expr.names, List.mem_append, List.mem_singleton] at hn
    exact h.steps (hn _ (.inl rfl)) fun x hx => hn x (.inr hx)
  | .convert h =>
    refine (h.steps hn).trans ?_
    unfold Checker.noted
    split
    · exact .refl
    · split
      · exact .single (.report (by simp))
      · exact .refl
  | .call _ h _ _ _ =>
    simp only [Expr.names, List.mem_cons] at hn
    exact h.steps fun x hx => hn x (.inr hx)
  | .pinningCall _ h hf hc =>
    simp only [Expr.names, List.mem_cons] at hn
    exact (h.steps fun x hx => hn x (.inr hx)).tail (.pin hf hc)

theorem AssignRun.steps {name : String} {place : Position} {value : Expr} {s s' : Checker} {slot : String}
    {t : Typed.Expr} {type : NumType} (h : AssignRun name place value s slot t type s') (hx : N name)
    (hn : ∀ x ∈ value.names, N x) : Steps N s s' := by
  match h with
  | .bound h hv ht => exact (h.steps hn).tail (.assign hv ht)
  | .fresh h _ _ => exact ((h.steps hn).tail (.report (by simp))).tail (.declare hx)

theorem ArgumentsRun.steps {es : List Expr} {types : List NumType} {s s' : Checker}
    {ts : List Typed.Expr} (h : ArgumentsRun es types s ts s') (hn : ∀ x ∈ namesOfExprs es, N x) :
    Steps N s s' := by
  match h with
  | .nil => exact .refl
  | .cons h _ hs =>
    simp only [namesOfExprs, List.mem_append] at hn
    exact (h.steps fun x hx => hn x (.inl hx)).trans (hs.steps fun x hx => hn x (.inr hx))

end

end Numlet
