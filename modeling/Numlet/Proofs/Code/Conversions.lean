import Numlet.Proofs.Code.Coercions

/-!
The conversions in code. They are those of the coercions between different types, in order; the ones that
the source writes are its conversion nodes, and all others widen.
-/
namespace Numlet

/-- Conversions, and lines whose text could be one. -/
def Instr.turns : Instr → Bool
  | .convert _ | .verbatim _ => true
  | _ => false

namespace Node

def turned (ns : List Node) : List Instr := (flatten ns).filter Instr.turns

@[simp] theorem turned_nil : turned [] = [] := rfl

@[simp] theorem turned_append (ns ms : List Node) : turned (ns ++ ms) = turned ns ++ turned ms := by
  rw [turned, flatten_append, List.filter_append]
  rfl

@[simp] theorem turned_plain (i : Instr) (h : i.isPlain = true) (ns : List Node) :
    turned (.plain i h :: ns) = [i].filter Instr.turns ++ turned ns := by
  rw [turned, flatten_cons, List.filter_append, flat]
  rfl

@[simp] theorem turned_block (label : Label) (body ns : List Node) :
    turned (.block label body :: ns) = turned body ++ turned ns := by
  simp [turned, flat, Instr.turns]

@[simp] theorem turned_loop (label : Label) (body ns : List Node) :
    turned (.loop label body :: ns) = turned body ++ turned ns := by
  simp [turned, flat, Instr.turns]

@[simp] theorem turned_cond (result : Option NumType) (yes : List Node) (no : Option (List Node))
    (ns : List Node) :
    turned (.cond result yes no :: ns) = turned yes ++ (no.map turned).getD [] ++ turned ns := by
  cases result <;> cases no <;> simp [turned, flat, flattenElse, opening, Instr.turns]

end Node

/-- The conversion from one type to another. -/
def coerced (source target : NumType) : List Instr :=
  ((if source = target then none else Conversion.between? source target).map Instr.convert).toList

@[simp] theorem turned_coerceNodes (source target : NumType) :
    Node.turned (coerceNodes source target) = coerced source target := by
  unfold coerceNodes coerced
  split
  · rfl
  · cases Conversion.between? source target <;> rfl

/-- The conversions of coercions. -/
def Coercion.turned (ks : List Coercion) : List Instr := ks.flatMap fun k => coerced k.source k.target

@[simp] theorem Coercion.turned_nil : Coercion.turned [] = [] := rfl

@[simp] theorem Coercion.turned_cons (k : Coercion) (ks : List Coercion) :
    Coercion.turned (k :: ks) = coerced k.source k.target ++ Coercion.turned ks :=
  List.flatMap_cons

@[simp] theorem Coercion.turned_append (ks ls : List Coercion) :
    Coercion.turned (ks ++ ls) = Coercion.turned ks ++ Coercion.turned ls :=
  List.flatMap_append

section Turned
open Coercion (implicit)
open Node (turned)

@[simp] theorem turned_truthNodes (t : NumType) : turned (truthNodes t) = [] := rfl

@[simp] theorem turned_conditionNodes (t : NumType) : turned (conditionNodes t) = [] := by
  unfold conditionNodes
  split <;> rfl

@[simp] theorem turned_unaryNodes (op : UnaryOp) (t : NumType) : turned (unaryNodes op t) = [] := by
  cases op <;> cases t <;> rfl

@[simp] theorem turned_numericNodes (op : BinaryOp) (t : NumType) :
    turned (numericNodes op t) = [] := by
  unfold numericNodes
  split <;> rfl

@[simp] theorem turned_callNodes (callee : String) : turned (callNodes callee) = [] := rfl

namespace Typed.Context

variable (c : Context)

mutual

theorem turned_exprNodes (e : Expr) : turned (c.exprNodes e) = Coercion.turned (c.coercions e) := by
  match e with
  | .literal .. => rfl
  | .var slot t span =>
    simp [exprNodes, coercions, loadNodes, implicit, Instr.turns]
  | .update op slot t span =>
    simp [exprNodes, coercions, updateNodes, loadNodes, storeNodes, implicit, Instr.turns]
  | .unary op operand t span =>
    simp [exprNodes, coercions, turned_exprNodes operand]
  | .convert operand source target t span =>
    simp [exprNodes, coercions, turned_exprNodes operand]
  | .assign slot value t span =>
    simp [exprNodes, coercions, loadNodes, storeNodes, implicit, Instr.turns, turned_exprNodes value]
  | .call callee arguments types callSpan t span =>
    simp [exprNodes, coercions, turned_argumentNodes arguments types]
  | .binary op l r ot t span =>
    rw [exprNodes, coercions]
    cases op <;> simp [BinaryOp.isLogical, implicit, Instr.turns, turned_exprNodes l,
      turned_exprNodes r]

theorem turned_argumentNodes (es : List Expr) (types : List NumType) :
    turned (c.argumentNodes es types) = Coercion.turned (c.argumentCoercions es types) := by
  match es, types with
  | [], _ | _ :: _, [] => simp [argumentNodes, argumentCoercions]
  | e :: es, t :: types =>
    simp [argumentNodes, argumentCoercions, implicit, turned_exprNodes e, turned_argumentNodes es types]

end

theorem turned_testNodes (e : Option Expr) (label : Nat) :
    turned (c.testNodes label e) = Coercion.turned (c.coercions? e) := by
  cases e with
  | none => rfl
  | some e => simp [testNodes, coercions?, turned_exprNodes, Instr.turns]

mutual

theorem turned_stmtNodes (s : Stmt) (inner next : Nat) :
    turned (c.stmtNodes inner next s) = Coercion.turned (c.stmtCoercions s) := by
  match s with
  | .declare slot none t span =>
    simp [stmtNodes, declareNodes, stmtCoercions, storeNodes, implicit, Instr.turns]
  | .declare slot (some value) t span =>
    simp [stmtNodes, declareNodes, stmtCoercions, storeNodes, implicit, Instr.turns, turned_exprNodes]
  | .assign slot value span =>
    simp [stmtNodes, stmtCoercions, storeNodes, implicit, Instr.turns, turned_exprNodes]
  | .branch condition yes no span =>
    simp [stmtNodes, stmtCoercions, turned_exprNodes, turned_stmtNodes yes, turned_elseNodes no]
  | .loop start condition body step span =>
    simp [stmtNodes, stmtCoercions, turned_testNodes, turned_stmtNodes? start, turned_stmtNodes body,
      turned_stmtNodes? step, Instr.turns]
  | .breakLoop _ | .continueLoop _ | .returnValue none _ => rfl
  | .returnValue (some value) span =>
    cases hr : c.result <;>
      simp [stmtNodes, returnNodes, stmtCoercions, turned_exprNodes, hr, Instr.turns, implicit]
  | .print value span => simp [stmtNodes, stmtCoercions, turned_exprNodes]
  | .block body span => simp [stmtNodes, stmtCoercions, turned_stmtsNodes body]
  | .expression value => simp [stmtNodes, stmtCoercions, turned_exprNodes, Instr.turns]
  | .call callee arguments types span =>
    rw [stmtNodes, stmtCoercions]
    split <;> simp [turned_argumentNodes, Instr.turns]

theorem turned_stmtNodes? (s : Option Stmt) (inner next : Nat) :
    turned (c.stmtNodes? inner next s) = Coercion.turned (c.stmtCoercions? s) := by
  match s with
  | none => simp [stmtNodes?, stmtCoercions?]
  | some s => simp [stmtNodes?, stmtCoercions?, turned_stmtNodes s]

theorem turned_elseNodes (s : Option Stmt) (inner next : Nat) :
    ((c.elseNodes inner next s).map turned).getD [] = Coercion.turned (c.stmtCoercions? s) := by
  match s with
  | none => simp [elseNodes, stmtCoercions?]
  | some s =>
    rw [elseNodes, stmtCoercions?]
    cases hempty : s.isEmptyBlock with
    | true =>
      obtain ⟨span, rfl⟩ := Stmt.isEmptyBlock_iff.mp hempty
      simp [stmtCoercions, stmtsCoercions]
    | false => simp [turned_stmtNodes s]

theorem turned_stmtsNodes (ss : List Stmt) (inner next : Nat) :
    turned (c.stmtsNodes inner next ss) = Coercion.turned (c.stmtsCoercions ss) := by
  match ss with
  | [] => simp [stmtsNodes, stmtsCoercions]
  | s :: ss => simp [stmtsNodes, stmtsCoercions, turned_stmtNodes s, turned_stmtsNodes ss]

end

end Typed.Context

end Turned

/-- The conversion that a node asks for. -/
def Typed.Expr.conversion? : Typed.Expr → Option Coercion
  | .convert _ source target _ span => some ⟨source, target, span, true⟩
  | _ => none

/-- The conversions that the source writes, in order. -/
def Typed.conversions (parts : List Typed.Expr) : List Coercion := parts.filterMap Typed.Expr.conversion?

namespace Coercion
open Typed (conversions)

/-- Coercions of nodes: the written ones are the conversions among the nodes, and the others widen. -/
structure Accounts (ks : List Coercion) (parts : List Typed.Expr) : Prop where
  widens : ∀ k ∈ ks, k.written = false → k.source.rank ≤ k.target.rank
  written : ks.filter (·.written) = conversions parts

namespace Accounts

variable {ks ls : List Coercion} {xs ys : List Typed.Expr}

theorem nil : Accounts [] [] := ⟨fun _ hk => (by cases hk), rfl⟩

theorem append (h₁ : Accounts ks xs) (h₂ : Accounts ls ys) : Accounts (ks ++ ls) (xs ++ ys) where
  widens := List.forall_mem_append.mpr ⟨h₁.widens, h₂.widens⟩
  written := by
    rw [List.filter_append, h₁.written, h₂.written, conversions, conversions, ← List.filterMap_append]
    rfl

/-- A node that is no conversion. -/
theorem node {x : Typed.Expr} (h : Accounts ks xs) (hx : x.conversion? = none) :
    Accounts ks (xs ++ [x]) where
  widens := h.widens
  written := by
    rw [h.written, conversions, conversions, List.filterMap_append, List.filterMap_cons_none hx]
    exact (List.append_nil _).symm

theorem implicit {source target : NumType} (h : Accounts ks xs) (hle : source.rank ≤ target.rank)
    (span : Span) : Accounts (ks ++ [.implicit source target span]) xs where
  widens := List.forall_mem_append.mpr ⟨h.widens, List.forall_mem_singleton.mpr fun _ => hle⟩
  written := by
    rw [List.filter_append, h.written]
    exact List.append_nil _

theorem convert {operand : Typed.Expr} {source target t : NumType} {span : Span}
    (h : Accounts ks xs) :
    Accounts (ks ++ [⟨source, target, span, true⟩]) (xs ++ [.convert operand source target t span]) where
  widens := List.forall_mem_append.mpr ⟨h.widens, List.forall_mem_singleton.mpr fun hw => nomatch hw⟩
  written := by
    rw [List.filter_append, h.written, conversions, conversions, List.filterMap_append]
    rfl

end Accounts

end Coercion

theorem BinaryOp.Types.rank_le {op : BinaryOp} {left right ot t : NumType} (hop : op.isLogical = false)
    (h : op.Types left right ot t) : left.rank ≤ ot.rank ∧ right.rank ≤ ot.rank := by
  rw [BinaryOp.Types, hop, if_neg (by simp)] at h
  rw [h.1]
  exact ⟨NumType.rank_le_join_left _ _, NumType.rank_le_join_right _ _⟩

namespace Typed.Context
open Coercion (Accounts)

variable {c : Context}

mutual

theorem Sound.accounts {e : Expr} (h : c.Sound e)
    (hslot : ∀ x t, c.storage x = some t → c.slotType x = t) : Accounts (c.coercions e) e.parts := by
  match e with
  | .literal value t span => exact Accounts.nil.node rfl
  | .var x t span =>
    have hx := hslot x t (h _ (List.mem_singleton.mpr rfl))
    rw [coercions, hx]
    exact (Accounts.nil.implicit (Nat.le_refl _) span).node rfl
  | .update op x t span =>
    have hx := hslot x t (h _ (List.mem_singleton.mpr rfl))
    rw [coercions, hx]
    exact (((Accounts.nil.implicit (Nat.le_refl _) span).implicit (Nat.le_refl _) span).implicit
      (Nat.le_refl _) span).node rfl
  | .unary op operand t span => exact (Sound.accounts h.unary.1 hslot).node rfl
  | .convert operand source target t span => exact (Sound.accounts h.convert.1 hslot).convert
  | .assign x value t span =>
    obtain ⟨hv, hx, hle⟩ := h.assign
    rw [coercions, hslot x t hx]
    have hall := (((Sound.accounts hv hslot).implicit hle span).implicit (Nat.le_refl t.rank) span).node
      (x := .assign x value t span) rfl
    rw [List.append_assoc] at hall
    exact hall
  | .call callee arguments types callSpan t span =>
    obtain ⟨hargs, -, hfits⟩ := h.call
    exact (accounts_arguments hargs hfits hslot).node rfl
  | .binary op l r ot t span =>
    obtain ⟨hl, hr, ht⟩ := h.binary
    rw [coercions]
    cases hop : op.isLogical with
    | true => exact ((Sound.accounts hl hslot).append (Sound.accounts hr hslot)).node rfl
    | false =>
      obtain ⟨hlle, hrle⟩ := ht.rank_le hop
      have hall := ((((Sound.accounts hl hslot).implicit hlle l.span).append
        (Sound.accounts hr hslot)).implicit hrle r.span).node (x := .binary op l r ot t span) rfl
      simpa [Expr.parts] using hall

theorem accounts_arguments {es : List Expr} {types : List NumType}
    (h : ∀ x ∈ partsOfExprs es, c.ExprOk x) (hfits : Fits es types)
    (hslot : ∀ x t, c.storage x = some t → c.slotType x = t) :
    Accounts (c.argumentCoercions es types) (partsOfExprs es) := by
  match es, types, hfits with
  | [], [], _ => exact .nil
  | e :: es, t :: types, .cons hle hfits =>
    rw [partsOfExprs, List.forall_mem_append] at h
    have hall := ((Sound.accounts h.1 hslot).implicit hle e.span).append
      (accounts_arguments h.2 hfits hslot)
    rw [List.append_assoc] at hall
    exact hall

end

theorem accounts_option {e : Option Expr} (h : ∀ x ∈ partsOfExpr? e, c.ExprOk x)
    (hslot : ∀ x t, c.storage x = some t → c.slotType x = t) :
    Accounts (c.coercions? e) (partsOfExpr? e) := by
  cases e with
  | none => exact .nil
  | some e => exact Sound.accounts h hslot

mutual

theorem SoundStmt.accounts {inLoop : Bool} {s : Stmt} (h : c.SoundStmt inLoop s)
    (hslot : ∀ x t, c.storage x = some t → c.slotType x = t) :
    Accounts (c.stmtCoercions s) s.exprs := by
  match s with
  | .declare x none t span =>
    obtain ⟨⟨τ, hx, hle⟩, -⟩ := h.self
    rw [stmtCoercions, hslot x τ hx]
    exact Accounts.nil.implicit hle span
  | .declare x (some value) t span =>
    obtain ⟨τ, hx, hle⟩ := h.self.2 value rfl
    rw [stmtCoercions, hslot x τ hx]
    exact (Sound.accounts h.exprs hslot).implicit hle span
  | .assign x value span =>
    obtain ⟨τ, hx, hle⟩ := h.self
    rw [stmtCoercions, hslot x τ hx]
    exact (Sound.accounts h.exprs hslot).implicit hle span
  | .branch condition yes no span =>
    obtain ⟨he, hyes, hno⟩ := h.branch
    exact ((Sound.accounts he hslot).append (SoundStmt.accounts hyes hslot)).append
      (SoundStmt?.accounts hno hslot)
  | .loop start condition body step span =>
    obtain ⟨hstart, hcondition, hbody, hstep⟩ := h.loop
    exact (((SoundStmt?.accounts hstart hslot).append (accounts_option hcondition hslot)).append
      (SoundStmt.accounts hbody hslot)).append (SoundStmt?.accounts hstep hslot)
  | .breakLoop _ | .continueLoop _ | .returnValue none _ => exact .nil
  | .returnValue (some value) span =>
    obtain ⟨r, hr, hle⟩ := h.self
    rw [stmtCoercions, hr]
    exact (Sound.accounts h.exprs hslot).implicit hle span
  | .print value span => exact Sound.accounts h.exprs hslot
  | .expression value => exact Sound.accounts h.exprs hslot
  | .block body span => exact SoundStmts.accounts h.block hslot
  | .call callee arguments types span => exact accounts_arguments h.exprs h.self.2 hslot

theorem SoundStmt?.accounts {inLoop : Bool} {s : Option Stmt} (h : c.SoundStmt? inLoop s)
    (hslot : ∀ x t, c.storage x = some t → c.slotType x = t) :
    Accounts (c.stmtCoercions? s) (exprsOfStmt? s) := by
  match s with
  | none => exact .nil
  | some s => exact SoundStmt.accounts h.some hslot

theorem SoundStmts.accounts {inLoop : Bool} {ss : List Stmt} (h : c.SoundStmts inLoop ss)
    (hslot : ∀ x t, c.storage x = some t → c.slotType x = t) :
    Accounts (c.stmtsCoercions ss) (exprsOfStmts ss) := by
  match ss with
  | [] => exact .nil
  | s :: ss =>
    obtain ⟨hfirst, hrest⟩ := h.cons
    exact (SoundStmt.accounts hfirst hslot).append (SoundStmts.accounts hrest hslot)

end

end Typed.Context

end Numlet
