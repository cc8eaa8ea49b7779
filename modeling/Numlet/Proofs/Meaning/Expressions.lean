import Numlet.Proofs.Code.Coercions
import Numlet.Proofs.Meaning.Machine

/-!
The code of an expression computes its value. Each piece of code is matched with a computation; code in
sequence is matched with computations in sequence.
-/
namespace Numlet

variable {F D W α β : Type}

namespace Computation

theorem bind_ok {m : Computation F D W α} {k : α → Computation F D W β} {s s' : Store F D W} {a : α}
    (h : m s = .ok (a, s')) : (m >>= k) s = k a s' := by
  change (m s >>= fun r => k r.1 r.2) = _
  rw [h]
  rfl

theorem bind_error {m : Computation F D W α} {k : α → Computation F D W β} {s : Store F D W} {w : W}
    (h : m s = .error w) : (m >>= k) s = .error w := by
  change (m s >>= fun r => k r.1 r.2) = _
  rw [h]
  rfl

theorem exists_of_bind_ok {m : Computation F D W α} {k : α → Computation F D W β}
    {s s' : Store F D W} {b : β} (h : (m >>= k) s = .ok (b, s')) :
    ∃ a s₁, m s = .ok (a, s₁) ∧ k a s₁ = .ok (b, s') := by
  cases hm : m s with
  | error w =>
    rw [bind_error hm] at h
    cases h
  | ok r =>
    obtain ⟨a, s₁⟩ := r
    rw [bind_ok hm] at h
    exact ⟨a, s₁, rfl, h⟩

end Computation

/-- The machine in a store, where all locals are there. -/
def Store.config (s : Store F D W) (σ : List (Value F D)) : Config F D W :=
  ⟨σ, fun x => some (s.locals x), s.world⟩

/-- A computation as the machine sees it: `after` is the stack for its value. -/
def Flow.ofRun (after : α → List (Value F D)) : Except W (α × Store F D W) → Flow F D W
  | .ok (a, s) => .next (s.config (after a))
  | .error w => .trap w

namespace Machine

/-- On the stack `σ`, code does what the computation does and leaves the stack `after a` for its value. -/
def Computes (M : Machine F D W) (ns : List Node) (σ : List (Value F D)) (m : Computation F D W α)
    (after : α → List (Value F D)) : Prop :=
  ∀ n s, M.execAll ns n (s.config σ) = .ofRun after (m s)

namespace Computes

variable {M : Machine F D W} {ns ms : List Node} {σ : List (Value F D)}
  {m : Computation F D W α} {k : α → Computation F D W β} {after : α → List (Value F D)}
  {after' : β → List (Value F D)}

theorem of_pure (a : α) (after : α → List (Value F D)) : M.Computes [] (after a) (pure a) after :=
  fun _ _ => rfl

/-- The second part only has to work for values that the first can give. -/
theorem bind_of (h : M.Computes ns σ m after)
    (hk : ∀ a, (∃ s s', m s = .ok (a, s')) → M.Computes ms (after a) (k a) after') :
    M.Computes (ns ++ ms) σ (m >>= k) after' := by
  intro n s
  rw [execAll_append, h n s]
  cases hm : m s with
  | error w => rw [Computation.bind_error hm]; rfl
  | ok r =>
    obtain ⟨a, s'⟩ := r
    rw [Computation.bind_ok hm]
    exact hk a ⟨s, s', hm⟩ n s'

theorem bind (h : M.Computes ns σ m after) (hk : ∀ a, M.Computes ms (after a) (k a) after') :
    M.Computes (ns ++ ms) σ (m >>= k) after' := h.bind_of fun a _ => hk a

/-- The value of a computation as another one. -/
theorem map {f : α → β} (h : M.Computes ns σ m after) (hf : ∀ a, after a = after' (f a)) :
    M.Computes ns σ (m >>= fun a => pure (f a)) after' := by
  rw [← List.append_nil ns]
  refine h.bind fun a => ?_
  rw [hf a]
  exact .of_pure (f a) after'

theorem single {i : Instr} {hi : i.isPlain = true}
    (h : ∀ s : Store F D W, M.step i (s.config σ) = .ofRun after (m s)) :
    M.Computes [.plain i hi] σ m after := by
  intro n s
  rw [execAll_single, exec]
  exact h s

/-- An instruction that puts the result of an operation on the stack. -/
theorem operation {i : Instr} {hi : i.isPlain = true} {σ' : List (Value F D)}
    {v : Option (Value F D)}
    (h : ∀ s : Store F D W, M.step i (s.config σ) = (s.config σ).result σ' v) :
    M.Computes [.plain i hi] σ (orTrap v) (· :: σ') := by
  refine .single fun s => (h s).trans ?_
  cases v <;> rfl

theorem const (t : NumType) (l : Literal) (σ : List (Value F D)) :
    M.Computes [.plain (.const t l) rfl] σ (pure (M.ops.const t l)) (· :: σ) :=
  .single fun _ => rfl

theorem numeric (op : NumericOp) (t : NumType) (a b : Value F D) (σ : List (Value F D)) :
    M.Computes [.plain (.numeric op t) rfl] (b :: a :: σ) (orTrap (M.ops.numeric op t a b)) (· :: σ) :=
  .operation fun _ => rfl

theorem eqz (t : NumType) (v : Value F D) (σ : List (Value F D)) :
    M.Computes [.plain (.eqz t) rfl] (v :: σ) (orTrap (Value.eqz t v)) (· :: σ) :=
  .operation fun _ => rfl

/-- An operation with a constant on the right. -/
theorem numeric_const (op : NumericOp) (t : NumType) (l : Literal) (v : Value F D)
    (σ : List (Value F D)) :
    M.Computes [.plain (.const t l) rfl, .plain (.numeric op t) rfl] (v :: σ)
      (orTrap (M.ops.numeric op t v (M.ops.const t l))) (· :: σ) :=
  (const t l (v :: σ)).bind (k := fun b => orTrap (M.ops.numeric op t v b)) fun b =>
    numeric op t v b σ

theorem coerce {c : Coercion} (h : c.refusal? = none) (v : Value F D) (σ : List (Value F D)) :
    M.Computes (coerceNodes c.source c.target) (v :: σ)
      (orTrap (M.ops.coerce c.source c.target v)) (· :: σ) := by
  unfold coerceNodes Interpretation.coerce
  by_cases hsame : c.source = c.target
  · rw [if_pos hsame, if_pos hsame]
    exact .of_pure v (· :: σ)
  · obtain ⟨conversion, hsource, htarget⟩ := Coercion.exists_conversion h hsame
    rw [if_neg hsame, if_neg hsame, Conversion.between?_eq_some_iff.mpr ⟨hsource, htarget⟩]
    refine .operation fun s => ?_
    rw [hsource, htarget]
    rfl

theorem unary (op : UnaryOp) (t : NumType) (v : Value F D) (σ : List (Value F D)) :
    M.Computes (unaryNodes op t) (v :: σ) (orTrap (M.ops.unary op t v)) (· :: σ) := by
  cases op with
  | plus => exact .of_pure v (· :: σ)
  | negate =>
    rw [← M.ops.numeric_mul_neg_one]
    exact .numeric_const .mul t _ v σ
  | not =>
    unfold unaryNodes
    cases ht : t.isInteger with
    | true =>
      rw [← M.ops.eqz_eq_not ht]
      exact .eqz t v σ
    | false =>
      rw [← M.ops.numeric_eq_zero]
      exact .numeric_const .eq t _ v σ

theorem binary {op : BinaryOp} {l r ot t : NumType} (h : op.Types l r ot t)
    (hop : op.isLogical = false) (a b : Value F D) (σ : List (Value F D)) :
    M.Computes (numericNodes op ot) (b :: a :: σ) (orTrap (M.ops.binary op ot a b)) (· :: σ) := by
  obtain ⟨numeric, hn⟩ := h.exists_numeric hop
  rw [M.ops.binary_of_numeric hn, numericNodes, hn]
  exact .numeric numeric ot a b σ

theorem step (op : UpdateOp) (t : NumType) (v : Value F D) (σ : List (Value F D)) :
    M.Computes [.plain (.const t (.int 1)) rfl, .plain (.numeric op.numeric t) rfl] (v :: σ)
      (orTrap (M.ops.step op t v)) (· :: σ) := by
  cases op with
  | increment => exact .numeric_const .add t _ v σ
  | decrement => exact .numeric_const .sub t _ v σ

/-- A truth value is put on the stack as a number. -/
theorem truth (t : NumType) (v : Value F D) (σ : List (Value F D)) :
    M.Computes (truthNodes t) (v :: σ) (orTrap (M.ops.isTrue t v)) (.ofBool · :: σ) := by
  intro n s
  have h := numeric_const (M := M) .ne t (.int 0) v σ n s
  rw [M.ops.numeric_ne_zero] at h
  refine h.trans ?_
  cases M.ops.isTrue t v <;> rfl

theorem fetch {x : String} (hx : bareName x = x) (σ : List (Value F D)) :
    M.Computes [.plain (.getLocal x) rfl] σ (Numlet.fetch x) (· :: σ) := by
  refine .single fun s => ?_
  change (s.config σ).result σ (some (s.locals (bareName x))) = _
  rw [hx]
  rfl

theorem assign {x : String} (hx : bareName x = x) (v : Value F D) (σ : List (Value F D)) :
    M.Computes [.plain (.setLocal x) rfl] (v :: σ) (Numlet.assign x v) (fun _ => σ) := by
  refine .single fun s => ?_
  change (s.config (v :: σ)).set (bareName x) v σ = .next ((s.set x v).config σ)
  rw [hx]
  refine congrArg (fun locals => Flow.next ⟨σ, locals, s.world⟩) (funext fun y => ?_)
  simp only [Store.set]
  split <;> rfl

theorem call {target : String} {callee : Callee F D W} (h : M.callee target = some callee)
    {vs : List (Value F D)} (hvs : vs.length = callee.arity) (σ : List (Value F D)) :
    M.Computes [.plain (.call target) rfl] (vs.reverse ++ σ) (callee.run.invoke vs)
      (fun v => if callee.hasResult then v :: σ else σ) := by
  refine .single fun s => ?_
  have hcall : M.step (.call target) (s.config (vs.reverse ++ σ)) =
      callee.call (s.config (vs.reverse ++ σ)) := by
    simp only [Machine.step, h]
  rw [hcall, Store.config, callee.call_reverse hvs, Callable.invoke]
  cases callee.run vs s.world <;> rfl

end Computes

section Conditions

variable (M : Machine F D W)

/-- What follows a condition takes one of two ways. -/
theorem bind_condition {k : Config F D W → Flow F D W} {s : Store F D W} {σ : List (Value F D)}
    {yes no : Flow F D W} (hk : ∀ b, k (s.config (.i32 b :: σ)) = if b = 0 then no else yes)
    (htrap : ∀ v, (∀ b, v ≠ .i32 b) → k (s.config (v :: σ)) = .trap s.world) (t : NumType)
    (v : Value F D) (n : Nat) :
    (M.execAll (conditionNodes t) n (s.config (v :: σ))).bind k =
      match M.ops.isTrue t v with
      | some true => yes
      | some false => no
      | none => .trap s.world := by
  unfold conditionNodes
  by_cases ht : t = .i32
  · -- The number itself is the condition.
    subst ht
    rw [if_pos rfl, execAll]
    change k (s.config (v :: σ)) = _
    cases v with
    | i32 b =>
      rw [hk b]
      by_cases hb : b = 0
      · subst hb
        rfl
      · have htrue : (b != 0) = true := bne_iff_ne.mpr hb
        rw [if_neg hb, Interpretation.isTrue, htrue]
    | i64 | f32 | f64 =>
      refine htrap _ fun b hb => ?_
      cases hb
  · rw [if_neg ht, Computes.truth t v σ n s]
    cases M.ops.isTrue t v with
    | none => rfl
    | some b =>
      cases b with
      | true => exact hk 1
      | false => exact hk 0

/-- A condition and a branch on it. -/
theorem execAll_branch (t : NumType) (v : Value F D) (σ : List (Value F D)) (s : Store F D W)
    (r : Option NumType) (yes : List Node) (no : Option (List Node)) (n : Nat) :
    M.execAll (conditionNodes t ++ [.cond r yes no]) n (s.config (v :: σ)) =
      match M.ops.isTrue t v with
      | some true => (M.execAll yes n (s.config [])).onto σ
      | some false => (M.execElse no n (s.config [])).onto σ
      | none => .trap s.world := by
  rw [execAll_append]
  refine M.bind_condition (fun b => ?_) (fun u hu => ?_) t v n
  · rw [execAll_single, exec]
    change Flow.onto σ (if b = 0 then M.execElse no n (s.config []) else M.execAll yes n (s.config [])) = _
    split <;> rfl
  · rw [execAll_single, exec]
    cases u with
    | i32 b => exact absurd rfl (hu b)
    | i64 | f32 | f64 => rfl

variable {M}

/-- A branch whose parts compute. -/
theorem Computes.branch {yes no : List Node} {m m' : Computation F D W α}
    {after : α → List (Value F D)} (hy : M.Computes yes [] m after) (hn : M.Computes no [] m' after)
    (t : NumType) (v : Value F D) (σ : List (Value F D)) (r : Option NumType) :
    M.Computes (conditionNodes t ++ [.cond r yes (some no)]) (v :: σ)
      (orTrap (M.ops.isTrue t v) >>= fun holds => if holds then m else m') (fun a => after a ++ σ) := by
  have honto : ∀ x : Except W (α × Store F D W),
      (Flow.ofRun after x).onto σ = .ofRun (fun a => after a ++ σ) x := by
    intro x
    cases x <;> rfl
  intro n s
  rw [execAll_branch, execElse, hy n s, hn n s, honto, honto]
  cases M.ops.isTrue t v with
  | none => rfl
  | some b => cases b <;> rfl

end Conditions

/-- The machine runs code that is laid out for the context: locals are where their storage says, and calls
are linked to what they name. -/
structure Suits (M : Machine F D W) (c : Typed.Context) : Prop where
  slotType : ∀ x t, c.storage x = some t → c.slotType x = t
  bare : ∀ x t, c.storage x = some t → bareName x = x
  call : ∀ callee types r, c.signature callee = some (types, r) →
    M.callee (Host.resolve callee) = some ⟨types.length, r.isSome, M.ops.call callee⟩
  print : ∀ t, M.callee (Host.resolve (Host.print t).name) = some ⟨1, false, M.ops.host (.print t)⟩
  result : M.hasResult = c.result.isSome

end Machine

namespace Typed.Context
open Coercion (firstRefusal)

variable {M : Machine F D W} {c : Context}

theorem held_of_storage {x : String} {t : NumType} (hx : c.storage x = some t) : c.held x = t := by
  rw [held, hx]
  rfl

theorem read_eq (I : Interpretation F D W) (x : String) (t : NumType) (s : Store F D W) :
    c.read I x t s = orTrap (I.coerce (c.held x) t (s.locals x)) s :=
  Computation.bind_ok (m := fetch x) rfl

/-- An update can read its local twice. -/
theorem update_eq (I : Interpretation F D W) (op : UpdateOp) (x : String) (t : NumType) :
    c.update I op x t = (do
      let old ← c.read I x t
      let again ← c.read I x t
      let new ← orTrap (I.step op t again)
      c.write I x t new
      return old) := by
  funext s
  unfold update
  have hread := c.read_eq I x t s
  cases h : I.coerce (c.held x) t (s.locals x) with
  | none =>
    rw [h] at hread
    rw [Computation.bind_error hread, Computation.bind_error hread]
  | some v =>
    rw [h] at hread
    rw [Computation.bind_ok hread, Computation.bind_ok hread, Computation.bind_ok hread]

section Slots

variable (hM : M.Suits c) {x : String} {t : NumType} (hx : c.storage x = some t)
include hM hx

theorem loadNodes_computes {target : NumType} {span : Span}
    (h : (Coercion.implicit (c.slotType x) target span).refusal? = none) (σ : List (Value F D)) :
    M.Computes (c.loadNodes x target) σ (c.read M.ops x target) (· :: σ) := by
  rw [loadNodes, read, held_of_storage hx]
  rw [hM.slotType x t hx] at h ⊢
  exact (Machine.Computes.fetch (hM.bare x t hx) σ).bind fun v => .coerce h v σ

theorem storeNodes_computes {source : NumType} {span : Span}
    (h : (Coercion.implicit source (c.slotType x) span).refusal? = none) (v : Value F D)
    (σ : List (Value F D)) :
    M.Computes (c.storeNodes x source) (v :: σ) (c.write M.ops x source v) (fun _ => σ) := by
  rw [storeNodes, write, held_of_storage hx]
  rw [hM.slotType x t hx] at h ⊢
  exact (Machine.Computes.coerce h v σ).bind fun u => .assign (hM.bare x t hx) u σ

theorem updateNodes_computes {op : UpdateOp} {span : Span}
    (hload : (Coercion.implicit (c.slotType x) t span).refusal? = none)
    (hstore : (Coercion.implicit t (c.slotType x) span).refusal? = none) (σ : List (Value F D)) :
    M.Computes (c.updateNodes op x t) σ (c.update M.ops op x t) (· :: σ) := by
  rw [update_eq, updateNodes, List.append_assoc, List.append_assoc]
  refine (loadNodes_computes hM hx hload σ).bind fun old => ?_
  refine (loadNodes_computes hM hx hload (old :: σ)).bind fun again => ?_
  refine (Machine.Computes.step op t again (old :: σ)).bind fun new => ?_
  exact (storeNodes_computes hM hx hstore new (old :: σ)).map fun _ => rfl

end Slots

/-- A call gets as many arguments as there are parameters. -/
theorem length_of_evalArguments {I : Interpretation F D W} {es : List Expr} {ts : List NumType}
    (hfits : Fits es ts) {s s' : Store F D W} {vs : List (Value F D)}
    (h : c.evalArguments I es ts s = .ok (vs, s')) : vs.length = ts.length := by
  induction hfits generalizing s s' vs with
  | nil =>
    cases h
    rfl
  | cons hab hrest ih =>
    rw [evalArguments] at h
    obtain ⟨v, s₁, -, h⟩ := Computation.exists_of_bind_ok h
    obtain ⟨u, s₂, -, h⟩ := Computation.exists_of_bind_ok h
    obtain ⟨us, s₃, hus, h⟩ := Computation.exists_of_bind_ok h
    cases h
    rw [List.length_cons, List.length_cons, ih hus]

/-- A call with its arguments. -/
theorem callNodes_computes (hM : M.Suits c) {callee : String} {es : List Expr} {ts : List NumType}
    {r : Option NumType} (hs : c.signature callee = some (ts, r)) (hfits : Fits es ts)
    {ns : List Node} {σ : List (Value F D)}
    (h : M.Computes ns σ (c.evalArguments M.ops es ts) (fun vs => vs.reverse ++ σ)) :
    M.Computes (ns ++ callNodes callee) σ
      (c.evalArguments M.ops es ts >>= (M.ops.call callee).invoke)
      (fun v => if r.isSome then v :: σ else σ) := by
  refine h.bind_of fun vs hvs => ?_
  obtain ⟨s, s', hvs⟩ := hvs
  exact .call (hM.call callee ts r hs) (length_of_evalArguments hfits hvs) σ

mutual

/-- The code of an expression leaves its value on the stack. -/
theorem exprNodes_computes (e : Expr) (hM : M.Suits c) (hs : c.Sound e)
    (ha : firstRefusal (c.coercions e) = none) (σ : List (Value F D)) :
    M.Computes (c.exprNodes e) σ (c.eval M.ops e) (· :: σ) := by
  match e with
  | .literal value t span =>
    rw [exprNodes, eval]
    exact .const t value σ
  | .var x t span =>
    simp only [coercions, Coercion.firstRefusal_cons, Option.or_eq_none_iff] at ha
    rw [exprNodes, eval]
    exact loadNodes_computes hM hs.self ha.1 σ
  | .binary op left right operandType t span =>
    obtain ⟨hleft, hright, htypes⟩ := hs.binary
    rw [exprNodes, eval]
    have hright' : firstRefusal (c.coercions right) = none →
        M.Computes (c.exprNodes right ++ truthNodes right.type) []
          (do
            let b ← c.eval M.ops right
            let holds ← orTrap (M.ops.isTrue right.type b)
            return .ofBool holds) ([·]) := by
      intro hr
      refine (exprNodes_computes right hM hright hr []).bind fun b => ?_
      exact (Machine.Computes.truth right.type b []).map fun _ => rfl
    by_cases hand : op = .and
    · subst hand
      simp only [coercions, BinaryOp.isLogical, if_true, Coercion.firstRefusal_append,
        Option.or_eq_none_iff] at ha
      rw [if_pos rfl, if_pos rfl, List.append_assoc]
      refine (exprNodes_computes left hM hleft ha.1 σ).bind fun a => ?_
      exact (hright' ha.2).branch (.const .i32 (.int 0) []) left.type a σ (some .i32)
    · by_cases hor : op = .or
      · subst hor
        simp only [coercions, BinaryOp.isLogical, if_true, Coercion.firstRefusal_append,
          Option.or_eq_none_iff] at ha
        rw [if_neg hand, if_pos rfl, if_neg hand, if_pos rfl, List.append_assoc]
        refine (exprNodes_computes left hM hleft ha.1 σ).bind fun a => ?_
        exact Machine.Computes.branch (.const .i32 (.int 1) []) (hright' ha.2) left.type a σ (some .i32)
      · have hop := BinaryOp.isLogical_eq_false hand hor
        simp only [coercions, hop, Bool.false_eq_true, if_false, Coercion.firstRefusal_append,
          Coercion.firstRefusal_cons, Option.or_eq_none_iff] at ha
        rw [if_neg hand, if_neg hor, if_neg hand, if_neg hor]
        simp only [List.append_assoc]
        refine (exprNodes_computes left hM hleft ha.1.1 σ).bind fun a => ?_
        refine (Machine.Computes.coerce ha.1.2.1 a σ).bind fun a => ?_
        refine (exprNodes_computes right hM hright ha.1.2.2 (a :: σ)).bind fun b => ?_
        refine (Machine.Computes.coerce ha.2.1 b (a :: σ)).bind fun b => ?_
        exact .binary htypes hop a b σ
  | .unary op operand t span =>
    rw [exprNodes, eval]
    exact (exprNodes_computes operand hM hs.unary.1 ha σ).bind fun v => .unary op operand.type v σ
  | .update op x t span =>
    simp only [coercions, Coercion.firstRefusal_cons, Option.or_eq_none_iff] at ha
    rw [exprNodes, eval]
    exact updateNodes_computes hM hs.self ha.1 ha.2.2.1 σ
  | .assign x value t span =>
    obtain ⟨hvalue, hx, -⟩ := hs.assign
    simp only [coercions, Coercion.firstRefusal_append, Coercion.firstRefusal_cons,
      Option.or_eq_none_iff] at ha
    rw [exprNodes, eval, List.append_assoc]
    refine (exprNodes_computes value hM hvalue ha.1 σ).bind fun v => ?_
    refine (storeNodes_computes hM hx ha.2.1 v σ).bind fun _ => ?_
    exact loadNodes_computes hM hx ha.2.2.1 σ
  | .convert operand source target t span =>
    simp only [coercions, Coercion.firstRefusal_append, Coercion.firstRefusal_cons,
      Option.or_eq_none_iff] at ha
    rw [exprNodes, eval]
    exact (exprNodes_computes operand hM hs.convert.1 ha.1 σ).bind fun v => .coerce ha.2.1 v σ
  | .call callee arguments parameterTypes callSpan t span =>
    obtain ⟨hparts, ⟨r, hsig⟩, hfits⟩ := hs.call
    rw [exprNodes, eval]
    exact callNodes_computes hM hsig hfits (argumentNodes_computes arguments _ hM hparts ha σ)

theorem argumentNodes_computes (es : List Expr) (ts : List NumType) (hM : M.Suits c)
    (hs : ∀ x ∈ partsOfExprs es, c.ExprOk x)
    (ha : firstRefusal (c.argumentCoercions es ts) = none) (σ : List (Value F D)) :
    M.Computes (c.argumentNodes es ts) σ (c.evalArguments M.ops es ts) (fun vs => vs.reverse ++ σ) := by
  match es, ts with
  | [], ts | es, [] =>
    simp only [argumentNodes, evalArguments]
    exact .of_pure [] (fun vs => vs.reverse ++ σ)
  | e :: es, t :: ts =>
    simp only [partsOfExprs, List.forall_mem_append] at hs
    simp only [argumentCoercions, Coercion.firstRefusal_append, Coercion.firstRefusal_cons,
      Option.or_eq_none_iff] at ha
    rw [argumentNodes, evalArguments, List.append_assoc]
    refine (exprNodes_computes e hM hs.1 ha.1 σ).bind fun v => ?_
    refine (Machine.Computes.coerce ha.2.1 v σ).bind fun v => ?_
    refine (argumentNodes_computes es ts hM hs.2 ha.2.2 (v :: σ)).map fun vs => ?_
    simp

end

end Typed.Context

end Numlet
