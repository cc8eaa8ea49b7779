import Numlet.Proofs.Check.Body

/-!
What a body stores. The storage after a run is what the stores of the checked tree make of the storage
before it, one after the other, each widening its slot to the type of the value. Which types a scope
holds at the time makes no difference.
-/
namespace Numlet
namespace Typed

mutual

/-- The slots that an expression stores into, each with the type of its value. -/
def Expr.stores : Expr → List (String × NumType)
  | .literal _ _ _ | .var _ _ _ | .update _ _ _ _ => []
  | .binary _ left right _ _ _ => left.stores ++ right.stores
  | .unary _ operand _ _ => operand.stores
  | .assign slot value _ _ => value.stores ++ [(slot, value.type)]
  | .convert operand _ _ _ _ => operand.stores
  | .call _ arguments _ _ _ _ => storesOfExprs arguments

def storesOfExprs : List Expr → List (String × NumType)
  | [] => []
  | e :: es => e.stores ++ storesOfExprs es

end

def storesOfExpr? (e : Option Expr) : List (String × NumType) := (e.map Expr.stores).getD []

mutual

/-- A declaration stores at its own type. -/
def Stmt.stores : Stmt → List (String × NumType)
  | .declare slot value type _ => storesOfExpr? value ++ [(slot, type)]
  | .assign slot value _ => value.stores ++ [(slot, value.type)]
  | .branch condition yes no _ => condition.stores ++ yes.stores ++ storesOfStmt? no
  | .loop start condition body step _ =>
    storesOfStmt? start ++ storesOfExpr? condition ++ body.stores ++ storesOfStmt? step
  | .breakLoop _ | .continueLoop _ => []
  | .returnValue value _ => storesOfExpr? value
  | .print value _ => value.stores
  | .block body _ => storesOfStmts body
  | .expression value => value.stores
  | .call _ arguments _ _ => storesOfExprs arguments

def storesOfStmt? : Option Stmt → List (String × NumType)
  | none => []
  | some s => s.stores

def storesOfStmts : List Stmt → List (String × NumType)
  | [] => []
  | s :: ss => s.stores ++ storesOfStmts ss

end

/-- Parameters are stored by the caller, at their types. -/
def Function.stores (f : Function) : List (String × NumType) :=
  f.parameters.map (fun p => (p.name, p.type)) ++ storesOfStmts f.body

end Typed

namespace Table

/-- A slot becomes as wide as a value needs. -/
def widen (t : Table NumType) (slot : String) (type : NumType) : Table NumType :=
  t.insert slot (NumType.joinKnown (t.find? slot) (some type))

/-- A storage after some stores. -/
def stored (t : Table NumType) (stores : List (String × NumType)) : Table NumType :=
  stores.foldl (fun t store => t.widen store.1 store.2) t

variable {t : Table NumType} {slot other : String} {type a : NumType}
  {stores : List (String × NumType)}

theorem stored_append (t : Table NumType) (stores more : List (String × NumType)) :
    t.stored (stores ++ more) = (t.stored stores).stored more := List.foldl_append

theorem find?_of_widen (h : (t.widen slot type).find? other = some a) :
    t.find? other = some a ∨ (other, a) = (slot, type) := by
  unfold widen at h
  rw [find?_insert] at h
  split at h
  · next heq =>
    subst heq
    cases hf : t.find? other with
    | none =>
      rw [hf, NumType.joinKnown_none] at h
      cases h
      exact .inr rfl
    | some b =>
      rw [hf, NumType.joinKnown_some] at h
      obtain heq | heq := NumType.join_eq_or b type
      · rw [heq] at h
        exact .inl h
      · rw [heq] at h
        cases h
        exact .inr rfl
  · exact .inl h

theorem below_widen (t : Table NumType) (slot : String) (type : NumType) :
    t.Below (t.widen slot type) := by
  refine below_insert fun a ha => ?_
  rw [ha, NumType.joinKnown_some]
  exact NumType.rank_le_join_left _ _

theorem below_stored (t : Table NumType) (stores : List (String × NumType)) :
    t.Below (t.stored stores) := by
  induction stores generalizing t with
  | nil => exact .refl t
  | cons store stores ih => exact (t.below_widen store.1 store.2).trans (ih _)

/-- What a slot holds comes from one of the stores, if not from before. -/
theorem mem_of_find?_stored (h : (t.stored stores).find? slot = some type) :
    t.find? slot = some type ∨ (slot, type) ∈ stores := by
  induction stores generalizing t with
  | nil => exact .inl h
  | cons store stores ih =>
    obtain hf | hm := ih h
    · obtain hf | heq := find?_of_widen hf
      · exact .inl hf
      · exact .inr (heq ▸ List.mem_cons_self)
    · exact .inr (List.mem_cons_of_mem _ hm)

/-- After its stores a slot is wide enough for each of them. -/
theorem find?_stored_of_mem (h : (slot, type) ∈ stores) :
    ∃ a, (t.stored stores).find? slot = some a ∧ type.rank ≤ a.rank := by
  induction stores generalizing t with
  | nil => cases h
  | cons store stores ih =>
    obtain rfl | h := List.mem_cons.mp h
    · obtain ⟨a, ha, hle⟩ := below_stored (t.widen slot type) stores slot _ (find?_insert_self _ _ _)
      exact ⟨a, ha, Nat.le_trans (NumType.rank_le_joinKnown _ _) hle⟩
    · exact ih h

/-- From nothing, a slot gets the widest type of its stores. -/
theorem find?_stored_iff : (empty.stored stores).find? slot = some type ↔
    (slot, type) ∈ stores ∧ ∀ a, (slot, a) ∈ stores → a.rank ≤ type.rank := by
  have hsource : ∀ {a}, (empty.stored stores).find? slot = some a → (slot, a) ∈ stores :=
    fun ha => (mem_of_find?_stored ha).resolve_left (fun h => by cases h)
  constructor
  · intro h
    refine ⟨hsource h, fun a ha => ?_⟩
    obtain ⟨b, hb, hle⟩ := find?_stored_of_mem (t := empty) ha
    rw [h] at hb
    cases hb
    exact hle
  · rintro ⟨hm, hall⟩
    obtain ⟨b, hb, hle⟩ := find?_stored_of_mem (t := empty) hm
    rw [hb, NumType.eq_of_rank_eq (Nat.le_antisymm (hall b (hsource hb)) hle)]

theorem isSome_find?_stored : ((empty.stored stores).find? slot).isSome = true ↔
    slot ∈ stores.map Prod.fst := by
  rw [Option.isSome_iff_exists, List.mem_map]
  constructor
  · rintro ⟨a, ha⟩
    exact ⟨(slot, a), (find?_stored_iff.mp ha).1, rfl⟩
  · rintro ⟨⟨_, a⟩, ha, rfl⟩
    obtain ⟨b, hb, -⟩ := find?_stored_of_mem (t := empty) ha
    exact ⟨b, hb⟩

end Table

section Runs
open Checking

/-- To widen a slot by a value and by the type of its name is to widen it by the value. -/
theorem Checker.Bound.widen_assigned {s : Checker} (hb : s.Bound) {name : String} {v : Variable}
    (hv : s.scope.find? name = some v) {x type : NumType}
    (ht : NumType.assign? v.type x v.fixed = some type) :
    (s.assigned name v.slot type).storage = s.storage.widen v.slot x := by
  obtain ⟨u, hu, hle⟩ := hb name v hv
  have hjoin : u.join (v.type.join x) = u.join x := by
    apply NumType.eq_of_rank_eq
    simp only [NumType.rank_join]
    omega
  change s.storage.widen v.slot type = s.storage.widen v.slot x
  unfold Table.widen
  rw [hu, NumType.joinKnown_some, NumType.joinKnown_some, (NumType.assign?_eq_some_iff.mp ht).1, hjoin]

theorem ExprRun.stores_of_constant {e : Expr} {hint : Option NumType} {s s' : Checker}
    {t : Typed.Expr} (h : ExprRun e hint s t s') (hc : e.isConstant = true) : t.stores = [] := by
  cases h with
  | literal => rfl
  | unary h => exact h.stores_of_constant hc
  | binary hl hr =>
    simp only [Expr.isConstant, Bool.and_eq_true] at hc
    rw [Typed.Expr.stores, hl.stores_of_constant hc.1, hr.stores_of_constant hc.2]
    rfl
  | widened _ hr _ ha =>
    simp only [Expr.isConstant, Bool.and_eq_true] at hc
    rw [Typed.Expr.stores, ha.stores_of_constant hc.1, hr.stores_of_constant hc.2]
    rfl
  | var | update | assign | convert | call | pinningCall => cases hc

mutual

theorem ExprRun.stored {e : Expr} {hint : Option NumType} {s s' : Checker} {t : Typed.Expr}
    (h : ExprRun e hint s t s') (hb : s.Bound) : s'.storage = s.storage.stored t.stores := by
  match h with
  | .literal | .var _ | .update _ => rfl
  | .binary hl hr _ _ =>
    rw [Typed.Expr.stores, Table.stored_append, ← hl.stored hb]
    exact hr.stored (hl.free.bound hb)
  | .widened hl hr hw ha _ =>
    -- The constant on the left stores nothing, either time.
    have hc := (Bool.and_eq_true_iff.mp hw).2
    have hfirst := hl.of_constant hc
    subst hfirst
    rw [ha.of_constant hc, Typed.Expr.stores, ha.stores_of_constant hc]
    exact hr.stored hb
  | .unary h => exact h.stored hb
  | .assign ha => exact ha.stored hb
  | .convert h =>
    rw [Checker.noted_storage]
    exact h.stored hb
  | .call _ h _ _ _ => exact h.stored hb
  | .pinningCall _ h _ _ => exact h.stored hb

theorem AssignRun.stored {name : String} {place : Position} {value : Expr} {s s' : Checker} {slot : String}
    {t : Typed.Expr} {type : NumType} (h : AssignRun name place value s slot t type s') (hb : s.Bound) :
    s'.storage = s.storage.stored (t.stores ++ [(slot, t.type)]) := by
  match h with
  | .bound h hv ht =>
    rw [(h.free.bound hb).widen_assigned hv ht, h.stored hb, Table.stored_append]
    rfl
  | .fresh h _ _ =>
    rw [Table.stored_append, ← h.stored hb]
    rfl

theorem ArgumentsRun.stored {es : List Expr} {types : List NumType} {s s' : Checker}
    {ts : List Typed.Expr} (h : ArgumentsRun es types s ts s') (hb : s.Bound) :
    s'.storage = s.storage.stored (Typed.storesOfExprs ts) := by
  match h with
  | .nil => rfl
  | .cons h _ hs =>
    rw [Typed.storesOfExprs, Table.stored_append, ← h.stored hb]
    exact hs.stored (h.free.bound hb)

end

theorem ExprRun?.stored {e : Option Expr} {s s' : Checker} {t : Option Typed.Expr}
    (h : ExprRun? e s t s') (hb : s.Bound) :
    s'.storage = s.storage.stored (Typed.storesOfExpr? t) := by
  cases h with
  | missing => rfl
  | present h => exact h.stored hb

mutual

theorem StmtRun.stored {stmt : Stmt} {s s' : Checker} {t : Typed.Stmt} (h : StmtRun stmt s t s')
    (hb : s.Bound) : s'.storage = s.storage.stored t.stores := by
  match h with
  | .declare | .breakLoop _ | .continueLoop _ | .returnBare _ _ _ => rfl
  | .declareValue h _ =>
    rw [Typed.Stmt.stores, Table.stored_append, Typed.storesOfExpr?, Option.map_some,
      Option.getD_some, ← h.stored hb]
    rfl
  | .assign ha => exact ha.stored hb
  | .branch hc hy hn =>
    have hyes := hc.free.bound hb
    rw [Typed.Stmt.stores, Table.stored_append, Table.stored_append, ← hc.stored hb,
      ← hy.stored hyes]
    exact hn.stored (hy.free.copied.bound hyes)
  | .whileLoop hc hbody =>
    simp only [Typed.Stmt.stores, Typed.storesOfStmt?, Typed.storesOfExpr?, Option.map_some,
      Option.getD_some, List.nil_append, List.append_nil, Table.stored_append, ← hc.stored hb]
    exact hbody.stored (hc.free.bound hb)
  | .forLoop hs hc hbody hp =>
    have hcond := hs.free.bound hb
    have hin := hc.free.bound hcond
    rw [Typed.Stmt.stores, Table.stored_append, Table.stored_append, Table.stored_append,
      ← hs.stored hb, ← hc.stored hcond]
    exact (hp.stored (hbody.free.looped.bound hin)).trans
      (congrArg (Table.stored · _) (hbody.stored hin))
  | .returnFixed _ _ hv _ _ _ => exact hv.stored hb
  | .returnInferred _ _ hv _ _ _ => exact hv.stored hb
  | .print hv => exact hv.stored hb
  | .block h => exact h.stored hb
  | .expression hv => exact hv.stored hb
  | .call _ ha => exact ha.stored hb

theorem StmtRun?.stored {stmt : Option Stmt} {s s' : Checker} {t : Option Typed.Stmt}
    (h : StmtRun? stmt s t s') (hb : s.Bound) :
    s'.storage = s.storage.stored (Typed.storesOfStmt? t) := by
  match h with
  | .missing => rfl
  | .present h => exact h.stored hb

theorem StmtsRun.stored {stmts : List Stmt} {s s' : Checker} {ts : List Typed.Stmt}
    (h : StmtsRun stmts s ts s') (hb : s.Bound) :
    s'.storage = s.storage.stored (Typed.storesOfStmts ts) := by
  match h with
  | .nil => rfl
  | .cons h hs =>
    rw [Typed.storesOfStmts, Table.stored_append, ← h.stored hb]
    exact hs.stored (h.free.bound hb)

end

end Runs

end Numlet
