import Numlet.Proofs.Tables
import Numlet.Proofs.Tree.Outline

/-!
Resolved bodies. Every local of a resolved body is the number of one of its declarations, so that a
renaming which keeps the declarations apart can be undone.
-/
namespace Numlet
namespace Outline

variable {ν μ : Type}

mutual

/-- The locals of an expression, from left to right. -/
def Expr.locals : Expr ν → List ν
  | .literal _ _ => []
  | .var target _ | .update _ target _ => [target]
  | .binary _ left right _ => left.locals ++ right.locals
  | .unary _ operand _ | .convert operand _ _ => operand.locals
  | .assign target value _ => value.locals ++ [target]
  | .call _ arguments _ => localsOfExprs arguments

def localsOfExprs : List (Expr ν) → List ν
  | [] => []
  | e :: es => e.locals ++ localsOfExprs es

end

def localsOfExpr? (e : Option (Expr ν)) : List ν := (e.map Expr.locals).getD []

mutual

def Stmt.locals : Stmt ν → List ν
  | .declare target value _ => localsOfExpr? value ++ [target]
  | .assign target value _ => value.locals ++ [target]
  | .branch condition yes no _ => condition.locals ++ yes.locals ++ localsOfStmt? no
  | .loop start condition body step _ =>
    localsOfStmt? start ++ localsOfExpr? condition ++ body.locals ++ localsOfStmt? step
  | .breakLoop _ | .continueLoop _ => []
  | .returnValue value _ => localsOfExpr? value
  | .print value _ => value.locals
  | .block body _ => localsOfStmts body
  | .expression value => value.locals
  | .call _ arguments _ => localsOfExprs arguments

def localsOfStmt? : Option (Stmt ν) → List ν
  | none => []
  | some s => s.locals

def localsOfStmts : List (Stmt ν) → List ν
  | [] => []
  | s :: ss => s.locals ++ localsOfStmts ss

end

section Inverse

variable {f : ν → μ} {g : μ → ν}

mutual

/-- What is renamed can be renamed back if that works for all locals. -/
theorem Expr.map_map (e : Expr ν) (h : ∀ k ∈ e.locals, g (f k) = k) : (e.map f).map g = e := by
  match e with
  | .literal value span => rfl
  | .var target span | .update op target span =>
    simp only [Expr.map, h target (by simp [Expr.locals])]
  | .binary op left right span =>
    simp only [Expr.locals, List.forall_mem_append] at h
    simp only [Expr.map, left.map_map h.1, right.map_map h.2]
  | .unary op operand span => simp only [Expr.map, operand.map_map h]
  | .convert operand target span => simp only [Expr.map, operand.map_map h]
  | .assign target value span =>
    simp only [Expr.locals, List.forall_mem_append, List.forall_mem_singleton] at h
    simp only [Expr.map, value.map_map h.1, h.2]
  | .call callee arguments span => simp only [Expr.map, mapExprs_mapExprs arguments h]

theorem mapExprs_mapExprs (es : List (Expr ν)) (h : ∀ k ∈ localsOfExprs es, g (f k) = k) :
    mapExprs g (mapExprs f es) = es := by
  match es with
  | [] => rfl
  | e :: es =>
    simp only [localsOfExprs, List.forall_mem_append] at h
    simp only [mapExprs, e.map_map h.1, mapExprs_mapExprs es h.2]

end

theorem map_map_expr? (e : Option (Expr ν)) (h : ∀ k ∈ localsOfExpr? e, g (f k) = k) :
    (e.map (·.map f)).map (·.map g) = e := by
  cases e with
  | none => rfl
  | some e => exact congrArg some (e.map_map h)

mutual

theorem Stmt.map_map (s : Stmt ν) (h : ∀ k ∈ s.locals, g (f k) = k) : (s.map f).map g = s := by
  match s with
  | .declare target value span =>
    simp only [Stmt.locals, List.forall_mem_append, List.forall_mem_singleton] at h
    simp only [Stmt.map, map_map_expr? value h.1, h.2]
  | .assign target value span =>
    simp only [Stmt.locals, List.forall_mem_append, List.forall_mem_singleton] at h
    simp only [Stmt.map, value.map_map h.1, h.2]
  | .branch condition yes no span =>
    simp only [Stmt.locals, List.forall_mem_append] at h
    simp only [Stmt.map, condition.map_map h.1.1, yes.map_map h.1.2, mapStmt?_mapStmt? no h.2]
  | .loop start condition body step span =>
    simp only [Stmt.locals, List.forall_mem_append] at h
    simp only [Stmt.map, mapStmt?_mapStmt? start h.1.1.1, map_map_expr? condition h.1.1.2,
      body.map_map h.1.2, mapStmt?_mapStmt? step h.2]
  | .breakLoop span | .continueLoop span => rfl
  | .returnValue value span => simp only [Stmt.map, map_map_expr? value h]
  | .print value span => simp only [Stmt.map, value.map_map h]
  | .block body span => simp only [Stmt.map, mapStmts_mapStmts body h]
  | .expression value => simp only [Stmt.map, value.map_map h]
  | .call callee arguments span => simp only [Stmt.map, mapExprs_mapExprs arguments h]

theorem mapStmt?_mapStmt? (s : Option (Stmt ν)) (h : ∀ k ∈ localsOfStmt? s, g (f k) = k) :
    mapStmt? g (mapStmt? f s) = s := by
  match s with
  | none => rfl
  | some s => exact congrArg some (s.map_map h)

theorem mapStmts_mapStmts (ss : List (Stmt ν)) (h : ∀ k ∈ localsOfStmts ss, g (f k) = k) :
    mapStmts g (mapStmts f ss) = ss := by
  match ss with
  | [] => rfl
  | s :: ss =>
    simp only [localsOfStmts, List.forall_mem_append] at h
    simp only [mapStmts, s.map_map h.1, mapStmts_mapStmts ss h.2]

end

end Inverse

theorem Stmt.locals_ofExpr (e : Expr ν) : (Stmt.ofExpr e).locals = e.locals := by
  cases e <;> rfl

end Outline

namespace Naming

/-- Names mean declarations that there are. -/
def Bounded (n : Naming) : Prop := ∀ name k, n.bound.find? name = some k → k < n.sites.length

/-- `n.Leads n' locals`: on the way from `n` to `n'` these locals have been met. -/
structure Leads (n n' : Naming) (locals : List Nat) : Prop where
  bounded : n'.Bounded
  length_le : n.sites.length ≤ n'.sites.length
  locals : ∀ k ∈ locals, k < n'.sites.length

namespace Leads

variable {n n₁ n₂ n' : Naming} {ks ls : List Nat}

theorem refl (h : n.Bounded) : n.Leads n [] := ⟨h, Nat.le_refl _, fun _ hk => (by cases hk)⟩

theorem trans (h₁ : n.Leads n₁ ks) (h₂ : n₁.Leads n₂ ls) : n.Leads n₂ (ks ++ ls) where
  bounded := h₂.bounded
  length_le := Nat.le_trans h₁.length_le h₂.length_le
  locals := List.forall_mem_append.mpr
    ⟨fun k hk => Nat.lt_of_lt_of_le (h₁.locals k hk) h₂.length_le, h₂.locals⟩

/-- Back from a copy of the names in sight. -/
theorem leave (h : n.Leads n' ks) (hn : n.Bounded) : n.Leads (n.leave n') ks :=
  { h with bounded := fun name k hk => Nat.lt_of_lt_of_le (hn name k hk) h.length_le }

theorem found (h : n.Bounded) {name : String} {k : Nat} (hk : n.bound.find? name = some k) :
    n.Leads n [k] :=
  ⟨h, Nat.le_refl _, List.forall_mem_singleton.mpr (h name k hk)⟩

theorem declare (h : n.Bounded) (name : String) (declared : Option NumType) :
    n.Leads (n.declare name declared) [n.sites.length] := by
  have hlength : (n.declare name declared).sites.length = n.sites.length + 1 := by
    simp [Naming.declare]
  refine ⟨fun other k hk => ?_, by omega, List.forall_mem_singleton.mpr (by omega)⟩
  change (n.bound.insert name n.sites.length).find? other = some k at hk
  rw [Table.find?_insert] at hk
  rw [hlength]
  split at hk
  · cases hk
    exact Nat.lt_succ_self _
  · exact Nat.lt_succ_of_lt (h other k hk)

theorem assign (h : n.Bounded) (name : String) : n.Leads (n.assign name).2 [(n.assign name).1] := by
  unfold Naming.assign
  split
  · next k hk => exact found h hk
  · exact declare h name none

end Leads

theorem bounded_ofParameters (ps : List Typed.Parameter) : (ofParameters ps).Bounded := by
  suffices hfold : ∀ n : Naming, n.Bounded →
      (ps.foldl (fun n p => n.declare p.name (some p.type)) n).Bounded from
    hfold {} fun _ _ h => (by cases h)
  induction ps with
  | nil => exact fun n hn => hn
  | cons p ps ih => exact fun n hn => ih _ (Leads.declare hn p.name _).bounded

end Naming

mutual

theorem Expr.resolve_leads (e : Expr) {n n' : Naming} {x : Outline.Expr Nat}
    (h : e.resolve n = some (x, n')) (hn : n.Bounded) : n.Leads n' x.locals := by
  match e with
  | .literal value span =>
    cases h
    exact .refl hn
  | .var name span | .update op name targetSpan span =>
    obtain ⟨k, hk, heq⟩ := Option.map_eq_some_iff.mp h
    cases heq
    exact .found hn hk
  | .binary op left right span =>
    obtain ⟨⟨l, n₁⟩, hl, h⟩ := Option.bind_eq_some_iff.mp h
    obtain ⟨⟨r, n₂⟩, hr, h⟩ := Option.bind_eq_some_iff.mp h
    cases h
    have hleft := left.resolve_leads hl hn
    exact hleft.trans (right.resolve_leads hr hleft.bounded)
  | .unary op operand span =>
    obtain ⟨⟨y, n₁⟩, hy, h⟩ := Option.bind_eq_some_iff.mp h
    cases h
    have hoperand := operand.resolve_leads hy hn
    exact hoperand
  | .assign (.var name nameSpan) value span =>
    obtain ⟨⟨y, n₁⟩, hy, h⟩ := Option.bind_eq_some_iff.mp h
    cases h
    have hvalue := value.resolve_leads hy hn
    exact hvalue.trans (.assign hvalue.bounded name)
  | .assign (.literal ..) .. | .assign (.binary ..) .. | .assign (.unary ..) .. | .assign (.update ..) ..
  | .assign (.assign ..) .. | .assign (.convert ..) .. | .assign (.call ..) .. => cases h
  | .convert operand written target span =>
    obtain ⟨⟨y, n₁⟩, hy, h⟩ := Option.bind_eq_some_iff.mp h
    cases h
    have hoperand := operand.resolve_leads hy hn
    exact hoperand
  | .call callee arguments span =>
    obtain ⟨⟨ys, n₁⟩, hys, h⟩ := Option.bind_eq_some_iff.mp h
    cases h
    exact resolveExprs_leads arguments hys hn

theorem resolveExprs_leads (es : List Expr) {n n' : Naming} {xs : List (Outline.Expr Nat)}
    (h : resolveExprs es n = some (xs, n')) (hn : n.Bounded) :
    n.Leads n' (Outline.localsOfExprs xs) := by
  match es with
  | [] =>
    cases h
    exact .refl hn
  | e :: es =>
    obtain ⟨⟨y, n₁⟩, hy, h⟩ := Option.bind_eq_some_iff.mp h
    obtain ⟨⟨ys, n₂⟩, hys, h⟩ := Option.bind_eq_some_iff.mp h
    cases h
    have hfirst := e.resolve_leads hy hn
    exact hfirst.trans (resolveExprs_leads es hys hfirst.bounded)

end

theorem resolveExpr?_leads (e : Option Expr) {n n' : Naming} {x : Option (Outline.Expr Nat)}
    (h : resolveExpr? e n = some (x, n')) (hn : n.Bounded) :
    n.Leads n' (Outline.localsOfExpr? x) := by
  cases e with
  | none =>
    cases h
    exact .refl hn
  | some e =>
    obtain ⟨⟨y, n₁⟩, hy, h⟩ := Option.bind_eq_some_iff.mp h
    cases h
    exact e.resolve_leads hy hn

theorem resolveStep_leads (step : Option Expr) {n n' : Naming} {x : Option (Outline.Stmt Nat)}
    (h : resolveStep step n = some (x, n')) (hn : n.Bounded) :
    n.Leads n' (Outline.localsOfStmt? x) := by
  obtain ⟨⟨y, n₁⟩, hy, h⟩ := Option.bind_eq_some_iff.mp h
  have hstep := resolveExpr?_leads step hy hn
  cases h
  cases y with
  | none => exact hstep
  | some y =>
    change n.Leads _ (Outline.Stmt.ofExpr y).locals
    rw [Outline.Stmt.locals_ofExpr]
    exact hstep

mutual

theorem Stmt.resolve_leads (s : Stmt) {n n' : Naming} {x : Outline.Stmt Nat}
    (h : s.resolve n = some (x, n')) (hn : n.Bounded) : n.Leads n' x.locals := by
  match s with
  | .function .. => cases h
  | .declare name declared value span =>
    obtain ⟨⟨y, n₁⟩, hy, h⟩ := Option.bind_eq_some_iff.mp h
    cases h
    have hvalue := resolveExpr?_leads value hy hn
    exact hvalue.trans (.declare hvalue.bounded name declared)
  | .assign (.var name nameSpan) value span =>
    obtain ⟨⟨y, n₁⟩, hy, h⟩ := Option.bind_eq_some_iff.mp h
    cases h
    have hvalue := value.resolve_leads hy hn
    exact hvalue.trans (.assign hvalue.bounded name)
  | .assign (.literal ..) .. | .assign (.binary ..) .. | .assign (.unary ..) .. | .assign (.update ..) ..
  | .assign (.assign ..) .. | .assign (.convert ..) .. | .assign (.call ..) .. => cases h
  | .branch condition yes no span =>
    obtain ⟨⟨c, n₁⟩, hc, h⟩ := Option.bind_eq_some_iff.mp h
    obtain ⟨⟨y, n₂⟩, hy, h⟩ := Option.bind_eq_some_iff.mp h
    obtain ⟨⟨z, n₃⟩, hz, h⟩ := Option.bind_eq_some_iff.mp h
    cases h
    have hcond := condition.resolve_leads hc hn
    have hyes := (yes.resolve_leads hy hcond.bounded).leave hcond.bounded
    have hno := resolveStmt?_leads no hz hyes.bounded
    rw [Outline.Stmt.locals, List.append_assoc]
    exact hcond.trans ((hyes.trans hno).leave hcond.bounded)
  | .whileLoop condition body span =>
    obtain ⟨⟨c, n₁⟩, hc, h⟩ := Option.bind_eq_some_iff.mp h
    obtain ⟨⟨y, n₂⟩, hy, h⟩ := Option.bind_eq_some_iff.mp h
    cases h
    have hcond := condition.resolve_leads hc hn
    have hbody := (body.resolve_leads hy hcond.bounded).leave hcond.bounded
    have hall := hcond.trans hbody
    simpa [Outline.Stmt.locals, Outline.localsOfStmt?, Outline.localsOfExpr?] using hall
  | .forLoop start condition step body span =>
    obtain ⟨⟨st, n₁⟩, hst, h⟩ := Option.bind_eq_some_iff.mp h
    obtain ⟨⟨c, n₂⟩, hc, h⟩ := Option.bind_eq_some_iff.mp h
    obtain ⟨⟨y, n₃⟩, hy, h⟩ := Option.bind_eq_some_iff.mp h
    obtain ⟨⟨sp, n₄⟩, hsp, h⟩ := Option.bind_eq_some_iff.mp h
    cases h
    have hstart := resolveStmt?_leads start hst hn
    have hcond := resolveExpr?_leads condition hc hstart.bounded
    have hbody := (body.resolve_leads hy hcond.bounded).leave hcond.bounded
    have hstep := resolveStep_leads step hsp hbody.bounded
    exact (((hstart.trans hcond).trans hbody).trans hstep).leave hn
  | .breakLoop span | .continueLoop span =>
    cases h
    exact .refl hn
  | .returnValue value span =>
    obtain ⟨⟨y, n₁⟩, hy, h⟩ := Option.bind_eq_some_iff.mp h
    cases h
    exact resolveExpr?_leads value hy hn
  | .print value span | .expression value span =>
    obtain ⟨⟨y, n₁⟩, hy, h⟩ := Option.bind_eq_some_iff.mp h
    cases h
    exact value.resolve_leads hy hn
  | .block body span =>
    obtain ⟨⟨ys, n₁⟩, hys, h⟩ := Option.bind_eq_some_iff.mp h
    cases h
    exact (resolveStmts_leads body hys hn).leave hn
  | .call callee arguments span =>
    obtain ⟨⟨ys, n₁⟩, hys, h⟩ := Option.bind_eq_some_iff.mp h
    cases h
    exact resolveExprs_leads arguments hys hn

theorem resolveStmt?_leads (s : Option Stmt) {n n' : Naming} {x : Option (Outline.Stmt Nat)}
    (h : resolveStmt? s n = some (x, n')) (hn : n.Bounded) :
    n.Leads n' (Outline.localsOfStmt? x) := by
  match s with
  | none =>
    cases h
    exact .refl hn
  | some s =>
    obtain ⟨⟨y, n₁⟩, hy, h⟩ := Option.bind_eq_some_iff.mp h
    cases h
    exact s.resolve_leads hy hn

theorem resolveStmts_leads (ss : List Stmt) {n n' : Naming} {xs : List (Outline.Stmt Nat)}
    (h : resolveStmts ss n = some (xs, n')) (hn : n.Bounded) :
    n.Leads n' (Outline.localsOfStmts xs) := by
  match ss with
  | [] =>
    cases h
    exact .refl hn
  | s :: ss =>
    obtain ⟨⟨y, n₁⟩, hy, h⟩ := Option.bind_eq_some_iff.mp h
    obtain ⟨⟨ys, n₂⟩, hys, h⟩ := Option.bind_eq_some_iff.mp h
    cases h
    have hfirst := s.resolve_leads hy hn
    exact hfirst.trans (resolveStmts_leads ss hys hfirst.bounded)

end

end Numlet
