import Numlet.Proofs.Code.Writing

/-!
Lowering a sound tree writes its code, unless one of its coercions is from a fraction to a whole number:
then the first of these is refused. Nothing else can go wrong.
-/
namespace Numlet

/-- The function of the host that a node calls. -/
def Typed.Expr.host? (e : Typed.Expr) : Option Host := e.callee?.bind Host.find?

/-- A lowering that is set up for the body of a context. -/
structure Emitter.Ready (s : Emitter) (c : Typed.Context) : Prop where
  slotType : ∀ x t, c.storage x = some t → s.slotType x = some (c.slotType x)
  results : ∀ callee types r, c.signature callee = some (types, r) →
    (match Host.find? callee with
      | some host => some host.result
      | none => (s.program.find? callee).map (·.result)) = some r
  result : s.result = c.result

theorem Emitter.Ready.of_writes {s s' : Emitter} {c : Typed.Context} {code : List Instr} {opened : Nat}
    {called : List Host} (h : s.Ready c) (hw : s.Writes code opened called s') : s'.Ready c where
  slotType x t hx := hw.slotType (h.slotType x t hx)
  results callee types r hc := by
    rw [hw.program]
    exact h.results callee types r hc
  result := hw.result.trans h.result

theorem Emitter.Ready.functionResult {s : Emitter} {c : Typed.Context} (h : s.Ready c)
    {callee : String} {types : List NumType} {r : Option NumType}
    (hc : c.signature callee = some (types, r)) (span : Span) :
    Lowering.functionResult callee span s = .ok r s := by
  have hres := h.results callee types r hc
  unfold Lowering.functionResult
  cases hh : Host.find? callee with
  | some host =>
    rw [hh] at hres
    cases hres
    rfl
  | none =>
    rw [hh] at hres
    obtain ⟨f, hf, hr⟩ := Option.map_eq_some_iff.mp hres
    refine (bind_of_ok (get_eq_ok.mpr ⟨rfl, rfl⟩)).trans ?_
    rw [hf, ← hr]
    rfl

@[simp] theorem Slots.touch_touch (storage : Table NumType) (s : Slots) (x : String) :
    (s.touch storage (.getLocal x)).touch storage (.setLocal x) = s.touch storage (.getLocal x) := by
  obtain ⟨slot, hslot⟩ := s.find?_alloc x x ((storage.find? x).getD .i32)
  change ((s.alloc x _).2.alloc x _).2 = (s.alloc x _).2
  rw [if_pos rfl] at hslot
  cases hf : s.find? x with
  | some found =>
    rw [hf] at hslot
    rw [Slots.alloc_of_find? hslot]
  | none =>
    rw [hf] at hslot
    rw [Slots.alloc_of_find? hslot]

theorem foldl_touch_coerceNodes (storage : Table NumType) (s : Slots) (source target : NumType) :
    (Node.flatten (coerceNodes source target)).foldl (Slots.touch storage) s = s := by
  unfold coerceNodes
  split
  · rfl
  · split <;> rfl

namespace Lowering
open Coercion (firstRefusal)

variable {α : Type}

theorem load_does {s : Emitter} {x : String} {τ : NumType} (h : s.slotType x = some τ) (t : NumType)
    (span : Span) :
    Does (load x t span) s (Coercion.implicit τ t span).refusal?
      (.getLocal x :: Node.flatten (coerceNodes τ t)) 0 [] := by
  obtain ⟨slot, log, hslot, rfl⟩ := slotFor_run h t
  have hget : s.Writes [.getLocal x] 0 []
      { s with
        slots := s.slots.touch s.storage (.getLocal x), log := log
        output := s.output.push (.getLocal x) } :=
    ⟨rfl, rfl, rfl, rfl, Array.toList_push, rfl, rfl, fun host => by simp⟩
  have hrun : load x t span s = (coerce slot.type t span >>= fun _ => pure slot)
      { s with
        slots := s.slots.touch s.storage (.getLocal x), log := log
        output := s.output.push (.getLocal x) } := bind_of_ok hslot
  refine Does.congr (Does.start hrun hget
    ((coerce_does _ (.implicit slot.type t span)).bind fun _ s₁ _ => .of_pure slot s₁)) ?_ ?_ rfl ?_
  · simp
  · simp [Coercion.implicit]
  · simp

theorem foldl_touch_store (storage : Table NumType) (s : Slots) (x : String) (t τ : NumType) :
    (Node.flatten (coerceNodes t τ) ++ [Instr.setLocal x]).foldl (Slots.touch storage) s =
      s.touch storage (.getLocal x) := by
  rw [List.foldl_append, foldl_touch_coerceNodes]
  rfl

/-- The slot of a local is there before the code that stores into it. -/
theorem Does.of_touched {m k : Lowering α} {s : Emitter} {x : String} {t τ : NumType} {log : Array Event}
    {r : Option Diagnostic} {opened : Nat} {called : List Host}
    (hm : m s = k { s with slots := s.slots.touch s.storage (.getLocal x), log := log })
    (hk : Does k { s with slots := s.slots.touch s.storage (.getLocal x), log := log } r
      (Node.flatten (coerceNodes t τ) ++ [.setLocal x]) opened called) :
    Does m s r (Node.flatten (coerceNodes t τ) ++ [.setLocal x]) opened called := by
  cases r with
  | some d =>
    obtain ⟨s₁, hk⟩ := hk
    exact ⟨s₁, hm.trans hk⟩
  | none =>
    obtain ⟨a, s₁, hk, hw⟩ := hk
    refine ⟨a, s₁, hm.trans hk, hw.program, hw.storage, hw.result, hw.loops, hw.output, hw.nextLabel, ?_,
      hw.hosts⟩
    rw [hw.slots, foldl_touch_store, foldl_touch_store]
    exact Slots.touch_touch s.storage s.slots x

theorem store_does {s : Emitter} {x : String} {τ : NumType} (h : s.slotType x = some τ) (t : NumType)
    (span : Span) :
    Does (store x t span) s (Coercion.implicit t τ span).refusal?
      (Node.flatten (coerceNodes t τ) ++ [.setLocal x]) 0 [] := by
  obtain ⟨slot, log, hslot, rfl⟩ := slotFor_run h t
  refine Does.of_touched (bind_of_ok hslot) ?_
  refine ((coerce_does _ (.implicit t slot.type span)).bind fun _ s₁ h₁ =>
    Does.bind (emit_does ?_) fun _ s₂ _ => .of_pure slot s₂).congr ?_ ?_ rfl ?_
  · rw [h₁.slots, h₁.storage]
    exact (congrArg (Slots.touch s.storage · (.setLocal x)) (foldl_touch_coerceNodes _ _ _ _)).trans
      ((Slots.touch_touch s.storage s.slots x).trans (foldl_touch_coerceNodes _ _ _ _).symm)
  · simp
  · simp [Coercion.implicit]
  · simp

theorem truth_does (s : Emitter) (t : NumType) :
    Does (truth t) s none (Node.flatten (truthNodes t)) 0 [] :=
  (emit_does rfl).bind fun _ _ _ => emit_does rfl

theorem asCondition_does (s : Emitter) (t : NumType) :
    Does (asCondition t) s none (Node.flatten (conditionNodes t)) 0 [] := by
  unfold asCondition conditionNodes
  by_cases h : t = .i32
  · rw [if_neg (fun hne => hne h), if_pos h]
    exact .of_pure () s
  · rw [if_pos h, if_neg h]
    exact truth_does s t

theorem applyUnary_does (s : Emitter) (op : UnaryOp) (t : NumType) :
    Does (applyUnary op t) s none (Node.flatten (unaryNodes op t)) 0 [] := by
  cases op with
  | plus => exact .of_pure () s
  | negate => exact (emit_does rfl).bind fun _ _ _ => emit_does rfl
  | not =>
    unfold applyUnary unaryNodes
    dsimp only
    split
    · exact emit_does rfl
    · exact (emit_does rfl).bind fun _ _ _ => emit_does rfl

theorem call_does (s : Emitter) (callee : String) :
    Does (call callee) s none (Node.flatten (callNodes callee)) 0 (Host.find? callee).toList := by
  unfold call
  cases h : Host.find? callee with
  | none => exact emit_does rfl
  | some host =>
    refine ⟨(), { s with
      usedHosts := s.usedHosts.insert host
      output := s.output.push (.call (Host.resolve callee)) }, rfl, ?_⟩
    refine ⟨rfl, rfl, rfl, rfl, Array.toList_push, rfl, rfl, fun other => ?_⟩
    rw [List.mem_insert_iff, Option.toList_some, List.mem_singleton, or_comm]

theorem step_does {s : Emitter} {x : String} {τ : NumType} (h : s.slotType x = some τ) (op : UpdateOp)
    (t : NumType) (span : Span) :
    Does (step op x t span) s
      (firstRefusal [.implicit τ t span, .implicit τ t span, .implicit t τ span])
      (.getLocal x :: Node.flatten (coerceNodes τ t) ++ .getLocal x :: Node.flatten (coerceNodes τ t) ++
        [.whole t 1, .numeric op.numeric t] ++ Node.flatten (coerceNodes t τ) ++ [.setLocal x]) 0 [] := by
  unfold step
  refine ((load_does h t span).bind fun _ s₁ h₁ => (load_does (h₁.slotType h) t span).bind fun _ s₂ h₂ =>
    Does.bind (emit_does rfl) fun _ s₃ h₃ => Does.bind (emit_does rfl) fun _ s₄ h₄ =>
    (store_does (h₄.slotType (h₃.slotType (h₂.slotType (h₁.slotType h)))) t span).bind fun _ s₅ _ =>
    .of_pure () s₅).congr ?_ ?_ rfl (by simp)
  · simp
  · cases op <;> simp [UpdateOp.numeric]

end Lowering

/-- The functions of the host that expressions call. -/
def Typed.hosts (parts : List Typed.Expr) : List Host := parts.filterMap Typed.Expr.host?

@[simp] theorem Typed.hosts_append (xs ys : List Typed.Expr) :
    Typed.hosts (xs ++ ys) = Typed.hosts xs ++ Typed.hosts ys :=
  List.filterMap_append

@[simp] theorem Typed.hosts_singleton (x : Typed.Expr) : Typed.hosts [x] = x.host?.toList := by
  cases h : x.host? <;> simp [Typed.hosts, h]

namespace Lowering
open Coercion (firstRefusal)
open Typed (hosts)

theorem lowerExpr_binary {op : BinaryOp} (hand : op ≠ .and) (hor : op ≠ .or) (l r : Typed.Expr)
    (ot t : NumType) (span : Span) :
    lowerExpr (.binary op l r ot t span) = (do
      lowerExpr l
      coerce l.type ot l.span
      lowerExpr r
      coerce r.type ot r.span
      match NumericOp.ofBinary? op ot with
      | some numeric => emit (.numeric numeric ot)
      | none => throw (.malformed ("no " ++ op.name ++ " instruction for " ++ ot.name) span)) := by
  cases op with
  | and => exact absurd rfl hand
  | or => exact absurd rfl hor
  | add | subtract | multiply | divide | remainder | equals | notEquals | less | lessEquals | greater
  | greaterEquals => exact (lowerExpr.eq_def _).trans rfl

/-- The operator of a sound expression has an operation. -/
theorem numeric_does {op : BinaryOp} {left right ot t : NumType} (hand : op ≠ .and) (hor : op ≠ .or)
    (h : op.Types left right ot t) (s : Emitter) (d : Diagnostic) :
    Does (match NumericOp.ofBinary? op ot with
      | some numeric => emit (.numeric numeric ot)
      | none => (throw d : Lowering Unit)) s none (Node.flatten (numericNodes op ot)) 0 [] := by
  cases op with
  | and => exact absurd rfl hand
  | or => exact absurd rfl hor
  | remainder =>
    have hint : ot.isFloat = false := h.2.1 rfl
    simp only [NumericOp.ofBinary?, numericNodes, hint]
    exact emit_does rfl
  | add | subtract | multiply | divide | equals | notEquals | less | lessEquals | greater
  | greaterEquals => exact emit_does rfl

mutual

/-- A sound expression is lowered to its code. -/
theorem lowerExpr_does (e : Typed.Expr) {c : Typed.Context} {s : Emitter} (he : c.Sound e)
    (hs : s.Ready c) :
    Does (lowerExpr e) s (firstRefusal (c.coercions e)) (Node.flatten (c.exprNodes e)) 0
      (hosts e.parts) := by
  match e with
  | .literal value t span =>
    rw [lowerExpr]
    exact emit_does rfl
  | .var x t span =>
    have hx : c.storage x = some t := he _ (List.mem_singleton.mpr rfl)
    rw [lowerExpr]
    refine (load_does (hs.slotType x t hx) t span).discard.congr ?_ ?_ rfl ?_
    · simp [Typed.Context.coercions]
    · simp [Typed.Context.exprNodes, Typed.Context.loadNodes, Node.flat]
    · simp [Typed.Expr.parts, Typed.Expr.host?, Typed.Expr.callee?]
  | .update op x t span =>
    have hx : c.storage x = some t := he _ (List.mem_singleton.mpr rfl)
    rw [lowerExpr]
    refine (step_does (hs.slotType x t hx) op t span).congr ?_ ?_ rfl ?_
    · simp [Typed.Context.coercions]
    · simp [Typed.Context.exprNodes, Typed.Context.updateNodes, Typed.Context.loadNodes,
        Typed.Context.storeNodes, Node.flat, Instr.whole]
    · simp [Typed.Expr.parts, Typed.Expr.host?, Typed.Expr.callee?]
  | .unary op operand t span =>
    rw [lowerExpr]
    refine ((lowerExpr_does operand he.unary.1 hs).bind fun _ s₁ _ =>
      applyUnary_does s₁ op operand.type).congr ?_ ?_ rfl ?_
    · simp [Typed.Context.coercions]
    · simp [Typed.Context.exprNodes]
    · simp [Typed.Expr.parts, Typed.Expr.host?, Typed.Expr.callee?]
  | .convert operand source target t span =>
    rw [lowerExpr]
    refine ((lowerExpr_does operand he.convert.1 hs).bind fun _ s₁ _ =>
      coerce_does s₁ ⟨source, target, span, true⟩).congr ?_ ?_ rfl ?_
    · simp [Typed.Context.coercions]
    · simp [Typed.Context.exprNodes]
    · simp [Typed.Expr.parts, Typed.Expr.host?, Typed.Expr.callee?]
  | .assign x value t span =>
    obtain ⟨hv, hx, -⟩ := he.assign
    rw [lowerExpr]
    refine ((lowerExpr_does value hv hs).bind fun _ s₁ h₁ =>
      (store_does ((hs.of_writes h₁).slotType x t hx) value.type span).bind fun _ s₂ h₂ =>
      (load_does (((hs.of_writes h₁).of_writes h₂).slotType x t hx) t span).discard).congr ?_ ?_ rfl ?_
    · simp [Typed.Context.coercions]
    · simp [Typed.Context.exprNodes, Typed.Context.loadNodes, Typed.Context.storeNodes,
        Node.flat]
    · simp [Typed.Expr.parts, Typed.Expr.host?, Typed.Expr.callee?]
  | .call callee arguments types callSpan t span =>
    obtain ⟨hargs, ⟨r, hr⟩, hfits⟩ := he.call
    rw [lowerExpr]
    refine (Does.start (bind_of_ok (hs.functionResult hr callSpan)) (.refl s)
      ((lowerArguments_does arguments types hargs hfits hs).bind fun _ s₁ _ =>
      call_does s₁ callee)).congr ?_ ?_ rfl ?_
    · simp [Typed.Context.coercions]
    · simp [Typed.Context.exprNodes]
    · simp [Typed.Expr.parts, Typed.Expr.host?, Typed.Expr.callee?]
  | .binary op l r ot t span =>
    obtain ⟨hl, hr, ht⟩ := he.binary
    by_cases hand : op = .and
    · subst hand
      rw [lowerExpr]
      refine ((lowerExpr_does l hl hs).bind fun _ s₁ h₁ =>
        (asCondition_does s₁ l.type).bind fun _ s₂ h₂ =>
        Does.bind (emit_does rfl) fun _ s₃ h₃ =>
        (lowerExpr_does r hr (((hs.of_writes h₁).of_writes h₂).of_writes h₃)).bind fun _ s₄ _ =>
        (truth_does s₄ r.type).bind fun _ s₅ _ =>
        Does.bind (emit_does rfl) fun _ s₆ _ => Does.bind (emit_does rfl) fun _ s₇ _ =>
        emit_does rfl).congr ?_ ?_ rfl ?_
      · simp [Typed.Context.coercions, BinaryOp.isLogical]
      · simp [Typed.Context.exprNodes, Node.flat, Node.flattenElse, Node.opening, Instr.whole]
      · simp [Typed.Expr.parts, Typed.Expr.host?, Typed.Expr.callee?]
    · by_cases hor : op = .or
      · subst hor
        rw [lowerExpr]
        refine ((lowerExpr_does l hl hs).bind fun _ s₁ h₁ =>
          (asCondition_does s₁ l.type).bind fun _ s₂ h₂ =>
          Does.bind (emit_does rfl) fun _ s₃ h₃ => Does.bind (emit_does rfl) fun _ s₄ h₄ =>
          Does.bind (emit_does rfl) fun _ s₅ h₅ =>
          (lowerExpr_does r hr (((((hs.of_writes h₁).of_writes h₂).of_writes h₃).of_writes
            h₄).of_writes h₅)).bind fun _ s₆ _ =>
          (truth_does s₆ r.type).bind fun _ s₇ _ => emit_does rfl).congr ?_ ?_ rfl ?_
        · simp [Typed.Context.coercions, BinaryOp.isLogical]
        · simp [Typed.Context.exprNodes, Node.flat, Node.flattenElse, Node.opening, Instr.whole]
        · simp [Typed.Expr.parts, Typed.Expr.host?, Typed.Expr.callee?]
      · rw [lowerExpr_binary hand hor]
        refine ((lowerExpr_does l hl hs).bind fun _ s₁ h₁ =>
          (coerce_does s₁ (.implicit l.type ot l.span)).bind fun _ s₂ h₂ =>
          (lowerExpr_does r hr ((hs.of_writes h₁).of_writes h₂)).bind fun _ s₃ _ =>
          (coerce_does s₃ (.implicit r.type ot r.span)).bind fun _ s₄ _ =>
          numeric_does hand hor ht s₄ _).congr ?_ ?_ rfl ?_
        · simp [Typed.Context.coercions, BinaryOp.isLogical_eq_false hand hor]
        · simp [Typed.Context.exprNodes, hand, hor, Coercion.implicit]
        · simp [Typed.Expr.parts, Typed.Expr.host?, Typed.Expr.callee?]

theorem lowerArguments_does (es : List Typed.Expr) (types : List NumType) {c : Typed.Context}
    {s : Emitter} (he : ∀ x ∈ Typed.partsOfExprs es, c.ExprOk x) (hfits : Typed.Fits es types)
    (hs : s.Ready c) :
    Does (lowerArguments es types) s (firstRefusal (c.argumentCoercions es types))
      (Node.flatten (c.argumentNodes es types)) 0 (hosts (Typed.partsOfExprs es)) := by
  match es, types, hfits with
  | [], [], _ =>
    rw [lowerArguments]
    · exact .of_pure () s
    · simp
  | e :: es, type :: types, .cons _ hfits =>
    rw [Typed.partsOfExprs, List.forall_mem_append] at he
    rw [lowerArguments]
    refine ((lowerExpr_does e he.1 hs).bind fun _ s₁ h₁ =>
      (coerce_does s₁ (.implicit e.type type e.span)).bind fun _ s₂ h₂ =>
      lowerArguments_does es types he.2 hfits ((hs.of_writes h₁).of_writes h₂)).congr ?_ ?_ rfl ?_
    · simp [Typed.Context.argumentCoercions]
    · simp [Typed.Context.argumentNodes, Coercion.implicit]
    · simp [Typed.partsOfExprs]

end

end Lowering

end Numlet
