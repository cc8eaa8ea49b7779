import Numlet.Proofs.Check.Functions
import Numlet.Proofs.Check.Naming

/-!
Runs of the checker against lexical scoping. Whatever a run accepts can be resolved, and the outline of
the checked tree is the resolved source with each declaration replaced by its slot.
-/
namespace Numlet
open Checking

/-- `n.Reaches n' s P`: scoping has got from `n` to `n'` while checking has got to `s`, and `P` holds of
the slots of the declarations, whatever is declared later. -/
structure Naming.Reaches (n n' : Naming) (s : Checker) (P : (Nat → String) → Prop) : Prop where
  named : s.Named n'
  sites : n.sites <+: n'.sites
  renamed : ∀ later, n'.sites <+: later → P (slotAt later)

namespace Naming.Reaches

variable {n n₁ n₂ n' : Naming} {s s₁ s₂ s' : Checker} {P Q R : (Nat → String) → Prop}

theorem refl (h : s.Named n) (hP : ∀ later, n.sites <+: later → P (slotAt later)) :
    n.Reaches n s P := ⟨h, List.prefix_refl _, hP⟩

theorem trans (h₁ : n.Reaches n₁ s₁ P) (h₂ : n₁.Reaches n₂ s₂ Q) (hR : ∀ σ, P σ → Q σ → R σ) :
    n.Reaches n₂ s₂ R where
  named := h₂.named
  sites := h₁.sites.trans h₂.sites
  renamed later hl := hR _ (h₁.renamed later (h₂.sites.trans hl)) (h₂.renamed later hl)

theorem imp (h : n.Reaches n' s P) (hR : ∀ σ, P σ → R σ) : n.Reaches n' s R :=
  { h with renamed := fun later hl => hR _ (h.renamed later hl) }

/-- Back from a copy of the names in sight. -/
theorem leave (h : n.Reaches n' s' P) (hs : s.Named n) :
    n.Reaches (n.leave n') (s'.withScope s.scope) P :=
  { h with named := hs.leave h.named h.sites }

/-- What is reported, returned and known to callers does not matter. -/
theorem aside (h : n.Reaches n' s P) {log : Array Event} {signatures : Table Signature}
    {bare valued : Bool} :
    n.Reaches n' { s with
      log := log, signatures := signatures, bareReturn := bare, valuedReturn := valued } P :=
  { h with named := h.named.aside }

theorem declare (h : n.Reaches n' s P) {name : String} (hdot : Dotless name) {type : NumType}
    {fixed : Bool} {declared : Option NumType}
    (hd : ∀ t, declared = some t → fixed = true ∧ type = t) :
    n.Reaches (n'.declare name declared) (s.declared name type fixed) fun σ =>
      s.nextSlot name = σ n'.sites.length ∧ P σ := by
  have hearlier := Checker.Named.declare_isPrefix n' name declared
  refine ⟨h.named.declared_step hdot hd, h.sites.trans hearlier, fun later hl => ?_⟩
  refine ⟨?_, h.renamed later (hearlier.trans hl)⟩
  rw [h.named.nextSlot_eq name declared, slotAt_of_isPrefix hl (by simp [Naming.declare])]

end Naming.Reaches

theorem bind_of_some {α β : Type} {o : Option α} {a : α} {f : α → Option β} (h : o = some a) :
    (o >>= f) = f a := by
  rw [h]
  rfl

theorem Expr.resolve_of_constant (e : Expr) (hc : e.isConstant = true) :
    ∃ x, ∀ n, e.resolve n = some (x, n) := by
  match e with
  | .literal value span => exact ⟨_, fun _ => rfl⟩
  | .unary op operand span =>
    obtain ⟨x, hx⟩ := resolve_of_constant operand hc
    exact ⟨.unary op x span, fun n => bind_of_some (hx n)⟩
  | .binary op left right span =>
    simp only [isConstant, Bool.and_eq_true] at hc
    obtain ⟨x, hx⟩ := resolve_of_constant left hc.1
    obtain ⟨y, hy⟩ := resolve_of_constant right hc.2
    exact ⟨.binary op x y span, fun n => (bind_of_some (hx n)).trans (bind_of_some (hy n))⟩
  | .var .. | .update .. | .assign .. | .convert .. | .call .. => cases hc

mutual

theorem ExprRun.renamed {e : Expr} {hint : Option NumType} {s s' : Checker} {t : Typed.Expr}
    {n : Naming} (h : ExprRun e hint s t s') (hn : ∀ x ∈ e.names, Dotless x) (hs : s.Named n) :
    ∃ x n', e.resolve n = some (x, n') ∧ n.Reaches n' s' fun σ => t.outline = x.map σ := by
  match h with
  | .literal => exact ⟨_, n, rfl, .refl hs fun _ _ => rfl⟩
  | .var hv =>
    obtain ⟨k, hk, hsite⟩ := hs.find?_of_some hv
    refine ⟨_, n, by rw [Expr.resolve, hk]; rfl, .refl hs fun later hl => ?_⟩
    rw [Typed.Expr.outline, (hsite.later hl).slot]
    rfl
  | .update hv =>
    obtain ⟨k, hk, hsite⟩ := hs.find?_of_some hv
    refine ⟨_, n, by rw [Expr.resolve, hk]; rfl, .refl hs fun later hl => ?_⟩
    rw [Typed.Expr.outline, (hsite.later hl).slot]
    rfl
  | .binary hl hr _ _ =>
    simp only [Expr.names, List.mem_append] at hn
    obtain ⟨x, n₁, hx, h₁⟩ := hl.renamed (fun x hx => hn x (.inl hx)) hs
    obtain ⟨y, n₂, hy, h₂⟩ := hr.renamed (fun x hx => hn x (.inr hx)) h₁.named
    refine ⟨_, n₂, (bind_of_some hx).trans (bind_of_some hy), h₁.trans h₂ fun σ hσ hσ' => ?_⟩
    rw [Typed.Expr.outline, hσ, hσ']
    rfl
  | .widened hl hr hw ha _ =>
    simp only [Expr.names, List.mem_append] at hn
    obtain ⟨x, n₁, hx, h₁⟩ := hl.renamed (fun x hx => hn x (.inl hx)) hs
    obtain ⟨y, n₂, hy, h₂⟩ := hr.renamed (fun x hx => hn x (.inr hx)) h₁.named
    obtain ⟨x', n₃, hx', h₃⟩ := ha.renamed (fun x hx => hn x (.inl hx)) h₂.named
    -- The constant that is checked twice is resolved to the same thing both times.
    obtain ⟨c, hc⟩ := Expr.resolve_of_constant _ (Bool.and_eq_true_iff.mp hw).2
    rw [hc] at hx hx'
    cases hx
    cases hx'
    refine ⟨_, n₂, (bind_of_some (hc n)).trans (bind_of_some hy),
      (h₁.trans h₂ fun σ _ hσ' => hσ').trans h₃ fun σ hσ hσ' => ?_⟩
    rw [Typed.Expr.outline, hσ, hσ']
    rfl
  | .unary h =>
    obtain ⟨x, n₁, hx, h₁⟩ := h.renamed hn hs
    refine ⟨_, n₁, bind_of_some hx, h₁.imp fun σ hσ => ?_⟩
    rw [Typed.Expr.outline, hσ]
    rfl
  | @ExprRun.assign _ _ _ span _ _ _ _ _ _ h =>
    simp only [Expr.names, List.mem_append, List.mem_singleton] at hn
    obtain ⟨x, k, n₁, n₂, hx, hk, h₁⟩ := h.renamed (hn _ (.inl rfl)) (fun x hx => hn x (.inr hx)) hs
    refine ⟨.assign k x span, n₂, by simp [Expr.resolve, hx, hk], h₁.imp fun σ hσ => ?_⟩
    rw [Typed.Expr.outline, hσ.1, hσ.2]
    rfl
  | .convert h =>
    obtain ⟨x, n₁, hx, h₁⟩ := h.renamed hn hs
    obtain ⟨log, hlog⟩ := Checker.noted_eq _ _ _
    rw [hlog]
    refine ⟨_, n₁, bind_of_some hx, (h₁.imp fun σ hσ => ?_).aside⟩
    rw [Typed.Expr.outline, hσ]
    rfl
  | .call _ h _ _ _ =>
    simp only [Expr.names, List.mem_cons] at hn
    obtain ⟨xs, n₁, hx, h₁⟩ := h.renamed (fun x hx => hn x (.inr hx)) hs
    refine ⟨_, n₁, bind_of_some hx, h₁.imp fun σ hσ => ?_⟩
    rw [Typed.Expr.outline, hσ]
    rfl
  | .pinningCall _ h _ _ =>
    simp only [Expr.names, List.mem_cons] at hn
    obtain ⟨xs, n₁, hx, h₁⟩ := h.renamed (fun x hx => hn x (.inr hx)) hs
    refine ⟨_, n₁, bind_of_some hx, (h₁.imp fun σ hσ => ?_).aside⟩
    rw [Typed.Expr.outline, hσ]
    rfl

theorem AssignRun.renamed {name : String} {place : Position} {value : Expr} {s s' : Checker} {slot : String}
    {t : Typed.Expr} {type : NumType} {n : Naming} (h : AssignRun name place value s slot t type s')
    (hx : Dotless name) (hn : ∀ x ∈ value.names, Dotless x) (hs : s.Named n) :
    ∃ x k n₁ n', value.resolve n = some (x, n₁) ∧ n₁.assign name = (k, n') ∧
      n.Reaches n' s' fun σ => slot = σ k ∧ t.outline = x.map σ := by
  match h with
  | .bound h hv ht =>
    obtain ⟨x, n₁, hx, h₁⟩ := h.renamed hn hs
    obtain ⟨k, hk, hsite⟩ := h₁.named.find?_of_some hv
    refine ⟨x, k, n₁, n₁, hx, by rw [Naming.assign, hk], ?_⟩
    exact { h₁ with
      named := h₁.named.assigned_step hv ht
      renamed := fun later hl => ⟨(hsite.later hl).slot, h₁.renamed later hl⟩ }
  | .fresh h hv _ =>
    obtain ⟨x, n₁, hx', h₁⟩ := h.renamed hn hs
    have hk := h₁.named.find?_of_none hv
    refine ⟨x, n₁.sites.length, n₁, n₁.declare name none, hx', by rw [Naming.assign, hk], ?_⟩
    exact h₁.aside.declare hx (by simp)

theorem ArgumentsRun.renamed {es : List Expr} {types : List NumType} {s s' : Checker}
    {ts : List Typed.Expr} {n : Naming} (h : ArgumentsRun es types s ts s')
    (hn : ∀ x ∈ namesOfExprs es, Dotless x) (hs : s.Named n) :
    ∃ xs n', resolveExprs es n = some (xs, n') ∧
      n.Reaches n' s' fun σ => Typed.outlineExprs ts = Outline.mapExprs σ xs := by
  match h with
  | .nil => exact ⟨[], n, rfl, .refl hs fun _ _ => rfl⟩
  | .cons h _ hrest =>
    simp only [namesOfExprs, List.mem_append] at hn
    obtain ⟨x, n₁, hx, h₁⟩ := h.renamed (fun x hx => hn x (.inl hx)) hs
    obtain ⟨xs, n₂, hxs, h₂⟩ := hrest.renamed (fun x hx => hn x (.inr hx)) h₁.named
    refine ⟨x :: xs, n₂, (bind_of_some hx).trans (bind_of_some hxs), h₁.trans h₂ fun σ hσ hσ' => ?_⟩
    rw [Typed.outlineExprs, hσ, hσ']
    rfl

end

theorem resolveExpr?_some {e : Expr} {n n' : Naming} {x : Outline.Expr Nat}
    (h : e.resolve n = some (x, n')) : resolveExpr? (some e) n = some (some x, n') := bind_of_some h

theorem ExprRun?.renamed {e : Option Expr} {s s' : Checker} {t : Option Typed.Expr} {n : Naming}
    (h : ExprRun? e s t s') (hn : ∀ x ∈ namesOfExpr? e, Dotless x) (hs : s.Named n) :
    ∃ x n', resolveExpr? e n = some (x, n') ∧
      n.Reaches n' s' fun σ => t.map Typed.Expr.outline = x.map (Outline.Expr.map σ) := by
  cases h with
  | missing => exact ⟨none, n, rfl, .refl hs fun _ _ => rfl⟩
  | present h =>
    obtain ⟨x, n', hx, h'⟩ := h.renamed hn hs
    refine ⟨some x, n', resolveExpr?_some hx, h'.imp fun σ hσ => ?_⟩
    rw [Option.map_some, hσ]
    rfl

theorem Outline.Stmt.map_ofExpr {ν μ : Type} (f : ν → μ) (e : Outline.Expr ν) :
    (Outline.Stmt.ofExpr e).map f = .ofExpr (e.map f) := by
  cases e <;> rfl

theorem StmtRun.renamed_ofExpr {e : Expr} {s s' : Checker} {t : Typed.Stmt} {n : Naming}
    (h : StmtRun (.ofExpr e) s t s') (hn : ∀ x ∈ e.names, Dotless x) (hs : s.Named n) :
    ∃ x n', e.resolve n = some (x, n') ∧
      n.Reaches n' s' fun σ => t.outline = (Outline.Stmt.ofExpr x).map σ := by
  cases e with
  | assign target value span =>
    cases h with
    | assign h =>
      simp only [Expr.names, List.mem_append, List.mem_singleton] at hn
      obtain ⟨x, k, n₁, n₂, hx, hk, h₁⟩ :=
        h.renamed (hn _ (.inl rfl)) (fun x hx => hn x (.inr hx)) hs
      refine ⟨.assign k x span, n₂, by simp [Expr.resolve, hx, hk], h₁.imp fun σ hσ => ?_⟩
      rw [Typed.Stmt.outline, hσ.1, hσ.2]
      rfl
  | call callee arguments span =>
    cases h with
    | call _ h =>
      simp only [Expr.names, List.mem_cons] at hn
      obtain ⟨xs, n₁, hx, h₁⟩ := h.renamed (fun x hx => hn x (.inr hx)) hs
      refine ⟨.call callee xs span, n₁, bind_of_some hx, h₁.imp fun σ hσ => ?_⟩
      rw [Typed.Stmt.outline, hσ]
      rfl
  | literal | var | binary | unary | update | convert =>
    cases h with
    | @expression _ _ _ typed _ h =>
      obtain ⟨x, n₁, hx, h₁⟩ := h.renamed hn hs
      refine ⟨x, n₁, hx, h₁.imp fun σ hσ => ?_⟩
      rw [Typed.Stmt.outline, Outline.Stmt.map_ofExpr, ← hσ]
      cases h <;> rfl

/-- The step of a loop. -/
theorem StmtRun?.renamed_step {step : Option Expr} {s s' : Checker} {t : Option Typed.Stmt}
    {n : Naming} (h : StmtRun? (step.map Stmt.ofExpr) s t s')
    (hn : ∀ x ∈ namesOfExpr? step, Dotless x) (hs : s.Named n) :
    ∃ x n', resolveStep step n = some (x, n') ∧
      n.Reaches n' s' fun σ => Typed.outlineStmt? t = Outline.mapStmt? σ x := by
  cases step with
  | none =>
    cases h
    exact ⟨none, n, rfl, .refl hs fun _ _ => rfl⟩
  | some e =>
    cases h with
    | present h =>
      obtain ⟨x, n', hx, h'⟩ := h.renamed_ofExpr hn hs
      refine ⟨some (.ofExpr x), n', bind_of_some (resolveExpr?_some hx),
        h'.imp fun σ hσ => ?_⟩
      rw [Typed.outlineStmt?, hσ]
      rfl

mutual

theorem StmtRun.renamed {stmt : Stmt} {s s' : Checker} {t : Typed.Stmt} {n : Naming}
    (h : StmtRun stmt s t s') (hn : ∀ x ∈ stmt.names, Dotless x) (hs : s.Named n) :
    ∃ x n', stmt.resolve n = some (x, n') ∧ n.Reaches n' s' fun σ => t.outline = x.map σ := by
  match h with
  | .declare =>
    simp only [Stmt.names, List.mem_cons] at hn
    have h₀ : n.Reaches n s fun _ => True := .refl hs fun _ _ => trivial
    refine ⟨_, _, rfl, (h₀.declare (hn _ (.inl rfl)) ?_).imp fun σ hσ => ?_⟩
    · rintro type rfl
      exact ⟨rfl, rfl⟩
    · rw [Typed.Stmt.outline, hσ.1]
      rfl
  | .declareValue h _ =>
    simp only [Stmt.names, List.mem_cons] at hn
    obtain ⟨x, n₁, hx, h₁⟩ := h.renamed (fun x hx => hn x (.inr hx)) hs
    refine ⟨_, n₁.declare _ _, bind_of_some (resolveExpr?_some hx),
      (h₁.declare (hn _ (.inl rfl)) ?_).imp fun σ hσ => ?_⟩
    · rintro type rfl
      exact ⟨rfl, rfl⟩
    · rw [Typed.Stmt.outline, hσ.1, Option.map_some, hσ.2]
      rfl
  | @StmtRun.assign _ _ _ span _ _ _ _ _ h =>
    simp only [Stmt.names, Expr.names, List.mem_append, List.mem_singleton] at hn
    obtain ⟨x, k, n₁, n₂, hx, hk, h₁⟩ := h.renamed (hn _ (.inl rfl)) (fun x hx => hn x (.inr hx)) hs
    refine ⟨.assign k x span, n₂, by simp [Stmt.resolve, hx, hk], h₁.imp fun σ hσ => ?_⟩
    rw [Typed.Stmt.outline, hσ.1, hσ.2]
    rfl
  | .branch hc hy hn' =>
    simp only [Stmt.names, List.mem_append] at hn
    obtain ⟨c, n₁, hc', h₁⟩ := hc.renamed (fun x hx => hn x (.inl (.inl hx))) hs
    obtain ⟨y, n₂, hy', h₂⟩ := hy.renamed (fun x hx => hn x (.inl (.inr hx))) h₁.named
    have hback := h₂.leave h₁.named
    obtain ⟨z, n₃, hz, h₃⟩ := hn'.renamed (fun x hx => hn x (.inr hx)) hback.named
    have hboth := (hback.trans h₃ fun σ hσ hσ' => And.intro hσ hσ').leave h₁.named
    refine ⟨_, n₁.leave n₃, (bind_of_some hc').trans ((bind_of_some hy').trans (bind_of_some hz)),
      h₁.trans hboth fun σ hσ hσ' => ?_⟩
    rw [Typed.Stmt.outline, hσ, hσ'.1, hσ'.2]
    rfl
  | .whileLoop hc hb =>
    simp only [Stmt.names, List.mem_append] at hn
    obtain ⟨c, n₁, hc', h₁⟩ := hc.renamed (fun x hx => hn x (.inl hx)) hs
    obtain ⟨b, n₂, hb', h₂⟩ := hb.renamed (fun x hx => hn x (.inr hx)) h₁.named.loopBody
    have hback := h₂.leave h₁.named
    refine ⟨_, n₁.leave n₂, (bind_of_some hc').trans (bind_of_some hb'),
      h₁.trans hback fun σ hσ hσ' => ?_⟩
    rw [Typed.Stmt.outline, Option.map_some, hσ, hσ']
    rfl
  | .forLoop hst hc hb hp =>
    simp only [Stmt.names, List.mem_append] at hn
    obtain ⟨st, n₁, hst', h₁⟩ := hst.renamed (fun x hx => hn x (.inl (.inl (.inl hx)))) hs
    obtain ⟨c, n₂, hc', h₂⟩ := hc.renamed (fun x hx => hn x (.inl (.inl (.inr hx)))) h₁.named
    obtain ⟨b, n₃, hb', h₃⟩ := hb.renamed (fun x hx => hn x (.inr hx)) h₂.named.loopBody
    have hback := h₃.leave h₂.named
    obtain ⟨sp, n₄, hp', h₄⟩ := hp.renamed_step (fun x hx => hn x (.inl (.inr hx))) hback.named
    have hheader := h₁.trans h₂ fun σ hσ hσ' => And.intro hσ hσ'
    have hrest := hback.trans h₄ fun σ hσ hσ' => And.intro hσ hσ'
    have hall := (hheader.trans hrest fun σ hσ hσ' => And.intro hσ hσ').leave hs
    refine ⟨_, n.leave n₄, (bind_of_some hst').trans ((bind_of_some hc').trans
      ((bind_of_some hb').trans (bind_of_some hp'))), hall.imp fun σ hσ => ?_⟩
    rw [Typed.Stmt.outline, hσ.1.1, hσ.1.2, hσ.2.1, hσ.2.2]
    rfl
  | .breakLoop _ => exact ⟨_, n, rfl, .refl hs fun _ _ => rfl⟩
  | .continueLoop _ => exact ⟨_, n, rfl, .refl hs fun _ _ => rfl⟩
  | .returnBare _ _ _ => exact ⟨_, n, rfl, .refl hs.aside fun _ _ => rfl⟩
  | .returnFixed _ _ h _ _ _ =>
    obtain ⟨x, n₁, hx, h₁⟩ := h.renamed hn hs
    refine ⟨_, n₁, bind_of_some (resolveExpr?_some hx), (h₁.imp fun σ hσ => ?_).aside⟩
    rw [Typed.Stmt.outline, Option.map_some, hσ]
    rfl
  | .returnInferred _ _ h _ _ _ =>
    obtain ⟨x, n₁, hx, h₁⟩ := h.renamed hn hs
    refine ⟨_, n₁, bind_of_some (resolveExpr?_some hx), (h₁.imp fun σ hσ => ?_).aside⟩
    rw [Typed.Stmt.outline, Option.map_some, hσ]
    rfl
  | .print h =>
    obtain ⟨x, n₁, hx, h₁⟩ := h.renamed hn hs
    refine ⟨_, n₁, bind_of_some hx, h₁.imp fun σ hσ => ?_⟩
    rw [Typed.Stmt.outline, hσ]
    rfl
  | .block h =>
    obtain ⟨xs, n₁, hx, h₁⟩ := h.renamed hn hs
    refine ⟨_, n.leave n₁, bind_of_some hx, (h₁.leave hs).imp fun σ hσ => ?_⟩
    rw [Typed.Stmt.outline, hσ]
    rfl
  | .expression h =>
    obtain ⟨x, n₁, hx, h₁⟩ := h.renamed hn hs
    refine ⟨_, n₁, bind_of_some hx, h₁.imp fun σ hσ => ?_⟩
    rw [Typed.Stmt.outline, hσ]
    rfl
  | .call _ h =>
    simp only [Stmt.names, List.mem_cons] at hn
    obtain ⟨xs, n₁, hx, h₁⟩ := h.renamed (fun x hx => hn x (.inr hx)) hs
    refine ⟨_, n₁, bind_of_some hx, h₁.imp fun σ hσ => ?_⟩
    rw [Typed.Stmt.outline, hσ]
    rfl

theorem StmtRun?.renamed {stmt : Option Stmt} {s s' : Checker} {t : Option Typed.Stmt} {n : Naming}
    (h : StmtRun? stmt s t s') (hn : ∀ x ∈ namesOfStmt? stmt, Dotless x) (hs : s.Named n) :
    ∃ x n', resolveStmt? stmt n = some (x, n') ∧
      n.Reaches n' s' fun σ => Typed.outlineStmt? t = Outline.mapStmt? σ x := by
  match h with
  | .missing => exact ⟨none, n, rfl, .refl hs fun _ _ => rfl⟩
  | .present h =>
    obtain ⟨x, n', hx, h'⟩ := h.renamed hn hs
    refine ⟨some x, n', bind_of_some hx, h'.imp fun σ hσ => ?_⟩
    rw [Typed.outlineStmt?, hσ]
    rfl

theorem StmtsRun.renamed {stmts : List Stmt} {s s' : Checker} {ts : List Typed.Stmt} {n : Naming}
    (h : StmtsRun stmts s ts s') (hn : ∀ x ∈ namesOfStmts stmts, Dotless x) (hs : s.Named n) :
    ∃ xs n', resolveStmts stmts n = some (xs, n') ∧
      n.Reaches n' s' fun σ => Typed.outlineStmts ts = Outline.mapStmts σ xs := by
  match h with
  | .nil => exact ⟨[], n, rfl, .refl hs fun _ _ => rfl⟩
  | .cons h hrest =>
    simp only [namesOfStmts, List.mem_append] at hn
    obtain ⟨x, n₁, hx, h₁⟩ := h.renamed (fun x hx => hn x (.inl hx)) hs
    obtain ⟨xs, n₂, hxs, h₂⟩ := hrest.renamed (fun x hx => hn x (.inr hx)) h₁.named
    refine ⟨x :: xs, n₂, (bind_of_some hx).trans (bind_of_some hxs), h₁.trans h₂ fun σ hσ hσ' => ?_⟩
    rw [Typed.outlineStmts, hσ, hσ']
    rfl

end

section Passes

variable {scope : Scope} {parameters : List Typed.Parameter} {body : List Stmt}
  {readTypes : Table NumType} {s s' : Checker} {typed : List Typed.Stmt} {n : Naming}

theorem Checker.Named.fresh (hempty : scope.bindings = .empty) :
    (s.fresh scope readTypes).Named {} where
  dotless _ h := by cases h
  counts _ := rfl
  bound name := by
    rw [Checker.find?_fresh hempty]
    exact .none
  stored slot := by simp [Checker.fresh]
  declared _ _ _ h := by cases h

theorem Checker.Named.entered (ps : List Typed.Parameter) (hdot : ∀ p ∈ ps, Dotless p.name)
    (h : s.Named n) :
    (ps.foldl (fun s p => s.declared p.name p.type true) s).Named
      (ps.foldl (fun n p => n.declare p.name (some p.type)) n) := by
  induction ps generalizing s n with
  | nil => exact h
  | cons p ps ih =>
    rw [List.forall_mem_cons] at hdot
    refine ih hdot.2 (h.declared_step hdot.1 ?_)
    rintro type ⟨⟩
    exact ⟨rfl, rfl⟩

/-- What the last pass over a body has made is the body, resolved and renamed. -/
theorem Passes.renamed (h : Passes scope parameters body readTypes s typed s')
    (hempty : scope.bindings = .empty) (hps : ∀ p ∈ parameters, Dotless p.name)
    (hbody : ∀ x ∈ namesOfStmts body, Dotless x) :
    ∃ outline n, ∃ s₁ : Checker, resolveStmts body (.ofParameters parameters) = some (outline, n) ∧
      Typed.outlineStmts typed = Outline.mapStmts (slotAt n.sites) outline ∧
      (Naming.ofParameters parameters).sites <+: n.sites ∧
      s₁.Named n ∧ s₁.storage = s'.storage := by
  obtain ⟨readTypes', s₀, s₁, number, hrun, -, -, rfl⟩ :=
    h.final (P := fun _ => True) (fun _ _ _ _ _ _ => trivial) trivial
  obtain @⟨s₂, hrun⟩ := hrun
  have hstart : (s₀.entered scope readTypes' parameters).Named (.ofParameters parameters) :=
    Checker.Named.entered parameters hps (.fresh hempty)
  obtain ⟨outline, n, hresolve, hreach⟩ := hrun.renamed hbody hstart
  exact ⟨outline, n, s₂, hresolve, hreach.renamed _ (List.prefix_refl _), hreach.sites,
    hreach.named, rfl⟩

end Passes

section Parameters

theorem Naming.sites_declared (ps : List Typed.Parameter) (n : Naming) :
    (ps.foldl (fun n p => n.declare p.name (some p.type)) n).sites =
      n.sites ++ ps.map fun p => ⟨p.name, some p.type⟩ := by
  induction ps generalizing n with
  | nil => simp
  | cons p ps ih =>
    rw [List.foldl_cons, ih]
    simp [declare]

theorem Naming.sites_ofParameters (ps : List Typed.Parameter) :
    (ofParameters ps).sites = ps.map fun p => ⟨p.name, some p.type⟩ := sites_declared ps {}

/-- Parameters keep their names. -/
theorem slotAt_parameter {ps : List Typed.Parameter} (hnd : (ps.map (·.name)).Nodup)
    {sites : List Site} (hsites : (Naming.ofParameters ps).sites <+: sites) {k : Nat}
    {p : Typed.Parameter} (hp : ps[k]? = some p) : slotAt sites k = p.name := by
  obtain ⟨hk, rfl⟩ := List.getElem?_eq_some_iff.mp hp
  rw [Naming.sites_ofParameters] at hsites
  have hsite : (ps.map fun p => (⟨p.name, some p.type⟩ : Site))[k]? =
      some ⟨ps[k].name, some ps[k].type⟩ := by rw [List.getElem?_map, hp]; rfl
  have hfirst : ((ps.map fun p => (⟨p.name, some p.type⟩ : Site)).take k).countP
      (·.name == ps[k].name) = 0 := by
    rw [← List.map_take, List.countP_map, List.countP_eq_zero]
    intro q hq heq
    obtain ⟨j, hj, rfl⟩ := List.mem_take_iff_getElem.mp hq
    -- Two places of the same name are the same place.
    have hlt : j < k := Nat.lt_of_lt_of_le hj (Nat.min_le_left _ _)
    have hne := List.pairwise_iff_getElem.mp hnd j k (by simp; omega) (by simpa using hk) hlt
    exact hne (by simpa using heq)
  rw [slotAt_of_isPrefix hsites (lt_length_of_getElem? hsite), slotAt_eq hsite, hfirst]
  rfl

end Parameters

end Numlet
