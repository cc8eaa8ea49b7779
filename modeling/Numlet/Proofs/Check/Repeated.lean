import Numlet.Proofs.Check.Hints
import Numlet.Proofs.Check.Passes
import Numlet.Proofs.Slots

/-!
Two runs over the same body, the later one reading every local at the storage that the earlier one has
ended with. Step by step the later run binds the same names to the same slots, and no type in it is
narrower, so in the end it has the same slots at types no narrower. The wanted type of a literal does
not grow along with the rest; what grows is the wider of the two.
-/
namespace Numlet
open Checking NumType

/-- The same local, at a type no narrower. -/
structure Variable.Under (v w : Variable) : Prop where
  slot : w.slot = v.slot
  fixed : w.fixed = v.fixed
  type : v.type.rank ≤ w.type.rank

theorem Variable.Under.refl (v : Variable) : v.Under v := ⟨rfl, rfl, Nat.le_refl _⟩

theorem Variable.Under.trans {u v w : Variable} (h₁ : u.Under v) (h₂ : v.Under w) : u.Under w :=
  ⟨h₂.slot.trans h₁.slot, h₂.fixed.trans h₁.fixed, Nat.le_trans h₁.type h₂.type⟩

/-- What is bound stays bound to the same local. -/
def Scope.Grows (s s' : Scope) : Prop :=
  ∀ name v, s.find? name = some v → ∃ w, s'.find? name = some w ∧ v.Under w

namespace Scope.Grows

variable {s s₁ s₂ : Scope}

theorem refl (s : Scope) : s.Grows s := fun _ v h => ⟨v, h, .refl v⟩

theorem trans (h₁ : s.Grows s₁) (h₂ : s₁.Grows s₂) : s.Grows s₂ := by
  intro name u hu
  obtain ⟨v, hv, huv⟩ := h₁ name u hu
  obtain ⟨w, hw, hvw⟩ := h₂ name v hv
  exact ⟨w, hw, huv.trans hvw⟩

theorem retype {name : String} {v : Variable} (hv : s.find? name = some v) {type : NumType}
    (ht : v.type.rank ≤ type.rank) : s.Grows (s.retype name type) := by
  intro other w hw
  rw [Scope.find?_retype hv]
  split
  · next ho =>
    rw [ho, hv] at hw
    cases hw
    exact ⟨_, rfl, rfl, rfl, ht⟩
  · exact ⟨w, hw, .refl w⟩

theorem declare {name : String} (hn : s.find? name = none) (slot : String) (type : NumType)
    (fixed : Bool) : s.Grows (s.declare name slot type fixed) := by
  intro other w hw
  rw [Scope.find?_declare]
  split
  · next ho =>
    rw [ho, hn] at hw
    cases hw
  · exact ⟨w, hw, .refl w⟩

/-- The type that an assignment wants of its value is no wider than that of the target afterwards. -/
theorem wanted_le (h : s.Grows s₁) {name : String} {w : Variable} (hw : s₁.find? name = some w) :
    wanted ((s.find? name).map (·.type)) ≤ w.type.rank := by
  cases hv : s.find? name with
  | none => exact Nat.zero_le _
  | some v =>
    obtain ⟨w', hw', hle⟩ := h name v hv
    rw [hw] at hw'
    cases hw'
    exact hle.type

/-- A name that is unbound in the end has been so before. -/
theorem find?_eq_none (h : s.Grows s₁) {name : String} (hn : s₁.find? name = none) :
    s.find? name = none := by
  cases hv : s.find? name with
  | none => rfl
  | some v =>
    obtain ⟨w, hw, -⟩ := h name v hv
    rw [hn] at hw
    cases hw

end Scope.Grows

mutual

/-- An expression declares only names that are unbound. -/
theorem ExprRun.scope_grows {e : Expr} {hint : Option NumType} {s s' : Checker} {t : Typed.Expr}
    (h : ExprRun e hint s t s') : s.scope.Grows s'.scope := by
  match h with
  | .literal | .var _ | .update _ => exact .refl _
  | .binary hl hr _ _ => exact hl.scope_grows.trans hr.scope_grows
  | .widened hl hr _ ha _ => exact (hl.scope_grows.trans hr.scope_grows).trans ha.scope_grows
  | .unary h => exact h.scope_grows
  | .assign h => exact h.scope_grows
  | .convert h =>
    obtain ⟨log, hlog⟩ := Checker.noted_eq _ _ _
    rw [hlog]
    exact h.scope_grows
  | .call _ h _ _ _ => exact h.scope_grows
  | .pinningCall _ h _ _ => exact h.scope_grows

theorem AssignRun.scope_grows {name : String} {place : Position} {value : Expr} {s s' : Checker}
    {slot : String} {t : Typed.Expr} {type : NumType} (h : AssignRun name place value s slot t type s') :
    s.scope.Grows s'.scope := by
  match h with
  | .bound h hv ht =>
    rw [assign?_eq_some_iff] at ht
    exact h.scope_grows.trans (.retype hv (ht.1 ▸ rank_le_join_left _ _))
  | .fresh h hv _ => exact h.scope_grows.trans (.declare hv _ _ _)

theorem ArgumentsRun.scope_grows {es : List Expr} {types : List NumType} {s s' : Checker}
    {ts : List Typed.Expr} (h : ArgumentsRun es types s ts s') : s.scope.Grows s'.scope := by
  match h with
  | .nil => exact .refl _
  | .cons h _ hs => exact h.scope_grows.trans hs.scope_grows

end

namespace Checker

/-- `s` is on the way to `z`, whatever scope it is in. -/
structure Before (s z : Checker) : Prop where
  storage : s.storage.Below z.storage
  signatures : s.signatures.Grows z.signatures

theorem Before.of_grows {s s' z : Checker} (h : s'.Before z) (hg : s.Grows s') : s.Before z :=
  ⟨hg.storage.trans h.storage, hg.signatures.trans h.signatures⟩

/-- `z.Retraced s t`: where one run, which was to end in `z`, was in the state `s`, a later run, which
reads locals at the storage of `z`, is in the state `t`. -/
structure Retraced (z s t : Checker) : Prop where
  reads : s.readTypes.Below z.storage
  readTypes : t.readTypes = z.storage
  signatures : z.signatures.Grows t.signatures
  scope : ∀ name, Option.Rel Variable.Under (s.scope.find? name) (t.scope.find? name)
  declarations : t.declarations = s.declarations
  storage : s.storage.Under t.storage
  bound : s.Bound

namespace Retraced

variable {z s s' t t' : Checker}

theorem find? (h : z.Retraced s t) {name : String} {v w : Variable}
    (hv : s.scope.find? name = some v) (hw : t.scope.find? name = some w) : v.Under w := by
  have hrel := h.scope name
  rw [hv, hw] at hrel
  cases hrel with
  | some h => exact h

theorem nextSlot (h : z.Retraced s t) (name : String) : t.nextSlot name = s.nextSlot name := by
  unfold Checker.nextSlot
  rw [h.declarations]

/-- A local that has storage is read no narrower in the later run. -/
theorem readType_le (h : z.Retraced s t) (hz : s.Before z) {slot : String} {a : NumType}
    (ha : s.storage.find? slot = some a) {type : NumType} (hle : type.rank ≤ a.rank)
    (type' : NumType) : (s.readType slot type).rank ≤ (t.readType slot type').rank := by
  obtain ⟨b, hb, hab⟩ := hz.storage slot a ha
  have ht : t.readType slot type' = b := by
    unfold Checker.readType
    rw [h.readTypes, hb]
    rfl
  rw [ht]
  unfold Checker.readType
  cases hr : s.readTypes.find? slot with
  | none => exact Nat.le_trans hle hab
  | some r =>
    obtain ⟨b', hb', hrb⟩ := h.reads slot r hr
    rw [hb] at hb'
    cases hb'
    exact hrb

theorem readType_var_le (h : z.Retraced s t) (hz : s.Before z) {name : String} {v w : Variable}
    (hv : s.scope.find? name = some v) (hw : t.scope.find? name = some w) :
    (s.readType v.slot v.type).rank ≤ (t.readType w.slot w.type).rank := by
  obtain ⟨a, ha, hle⟩ := h.bound name v hv
  rw [(h.find? hv hw).slot]
  exact h.readType_le hz ha hle _

/-- What is reported, returned and known to callers does not matter to the earlier run, and in the
later one signatures can only grow. -/
theorem aside (h : z.Retraced s t) {log log' : Array Event} {before after : Table Signature}
    {bare valued bare' valued' : Bool} (hg : t.signatures.Grows after) :
    z.Retraced { s with log := log, signatures := before, bareReturn := bare, valuedReturn := valued }
      { t with log := log', signatures := after, bareReturn := bare', valuedReturn := valued' } where
  reads := h.reads
  readTypes := h.readTypes
  signatures := h.signatures.trans hg
  scope := h.scope
  declarations := h.declarations
  storage := h.storage
  bound := h.bound

theorem recorded (h : z.Retraced s t) {slot : String} {a b : NumType} (hab : a.rank ≤ b.rank) :
    (s.recorded slot a).storage.Under (t.recorded slot b).storage := by
  apply h.storage.insert
  have hrel := h.storage.find? slot
  cases ha : s.storage.find? slot with
  | none =>
    rw [ha] at hrel
    cases hb : t.storage.find? slot with
    | none => rwa [joinKnown_none, joinKnown_none]
    | some b => rw [hb] at hrel; cases hrel
  | some x =>
    rw [ha] at hrel
    cases hb : t.storage.find? slot with
    | none => rw [hb] at hrel; cases hrel
    | some y =>
      rw [hb] at hrel
      cases hrel with
      | some hxy =>
        rw [joinKnown_some, joinKnown_some, rank_join, rank_join]
        omega

/-- The same name declared in both runs gets the same slot. -/
theorem declared (h : z.Retraced s t) (name : String) {a b : NumType} (hab : a.rank ≤ b.rank)
    (fixed : Bool) : z.Retraced (s.declared name a fixed) (t.declared name b fixed) where
  reads := h.reads
  readTypes := h.readTypes
  signatures := h.signatures
  scope other := by
    change Option.Rel _ ((s.scope.declare name _ a fixed).find? other)
      ((t.scope.declare name _ b fixed).find? other)
    rw [Scope.find?_declare, Scope.find?_declare]
    split
    · exact .some ⟨h.nextSlot name, rfl, hab⟩
    · exact h.scope other
  declarations := by
    change t.declarations.insert name _ = s.declarations.insert name _
    rw [h.declarations]
  storage := by
    change (s.recorded (s.nextSlot name) a).storage.Under (t.recorded (t.nextSlot name) b).storage
    rw [h.nextSlot name]
    exact h.recorded hab
  bound := (Step.declare (N := fun _ => True) trivial).bound h.bound

/-- The same name assigned in both runs. -/
theorem assigned (h : z.Retraced s t) {name : String} {v w : Variable}
    (hv : s.scope.find? name = some v) (hw : t.scope.find? name = some w) {x a b : NumType}
    (ha : assign? v.type x v.fixed = some a) (hab : a.rank ≤ b.rank) :
    z.Retraced (s.assigned name v.slot a) (t.assigned name w.slot b) where
  reads := h.reads
  readTypes := h.readTypes
  signatures := h.signatures
  scope other := by
    change Option.Rel _ ((s.scope.retype name a).find? other) ((t.scope.retype name b).find? other)
    rw [Scope.find?_retype hv, Scope.find?_retype hw]
    split
    · exact .some ⟨(h.find? hv hw).slot, (h.find? hv hw).fixed, hab⟩
    · exact h.scope other
  declarations := h.declarations
  storage := by
    rw [(h.find? hv hw).slot]
    exact h.recorded hab
  bound := (Step.assign (N := fun _ => True) hv ha).bound h.bound

/-- Both runs leave the scope that they have entered. -/
theorem leave (h : z.Retraced s t) (h' : z.Retraced s' t') (hb : s.storage.Below s'.storage) :
    z.Retraced (s'.withScope s.scope) (t'.withScope t.scope) :=
  { h' with scope := h.scope, bound := h.bound.mono rfl hb }

theorem loopBody (h : z.Retraced s t) :
    z.Retraced (s.withScope s.scope.loopBody) (t.withScope t.scope.loopBody) :=
  { h with }

end Retraced
end Checker

/-- What two runs over an expression have in common: the states afterwards are again such states, and
the type of the earlier is no wider than that of the later, up to what was wanted. -/
def Expr.Retraces (z : Checker) (e : Expr) : Prop :=
  ∀ ⦃a b : Option NumType⦄ ⦃s s' t t' : Checker⦄ ⦃x y : Typed.Expr⦄, ExprRun e a s x s' →
    ExprRun e b t y t' → z.Retraced s t → s'.Before z →
      z.Retraced s' t' ∧ x.type.rank ≤ max (wanted a) y.type.rank

section Expressions

variable {z s s' t t' : Checker}

theorem AssignRun.retraced_of_value {name : String} {place : Position} {value : Expr}
    (hvalue : value.Retraces z) {slot slot' : String} {x y : Typed.Expr} {type type' : NumType}
    (h : AssignRun name place value s slot x type s') (h' : AssignRun name place value t slot' y type' t')
    (hs : z.Retraced s t) (hz : s'.Before z) :
    z.Retraced s' t' ∧ (s'.readType slot type).rank ≤ (t'.readType slot' type').rank := by
  cases h with
  | @bound _ _ _ _ _ s₁ v _ h hv ha =>
    have hz₁ : s₁.Before z := hz.of_grows (Step.assign (N := fun _ => True) hv ha).extends.toGrows
    cases h' with
    | @bound _ _ _ _ _ t₁ w _ h' hw hb =>
      obtain ⟨hr, hle⟩ := hvalue h h' hs hz₁
      have hvw := hr.find? hv hw
      have hwanted := h.scope_grows.wanted_le hv
      have hab : type.rank ≤ type'.rank := by
        rw [assign?_eq_some_iff] at ha hb
        have hvw' := hvw.type
        rw [ha.1, hb.1, rank_join, rank_join]
        omega
      have hafter := hr.assigned hv hw ha hab
      refine ⟨hafter, ?_⟩
      rw [hvw.slot]
      exact hafter.readType_le hz (Table.find?_insert_self _ _ _) (rank_le_joinKnown _ _) _
    | fresh h' hw _ =>
      have hrel := (hvalue h h' hs hz₁).1.scope name
      rw [hv, hw] at hrel
      cases hrel
  | @fresh _ _ _ _ _ s₁ h hv ha =>
    have hreported := hz.of_grows (Step.declare (N := fun _ => True) trivial).extends.toGrows
    have hz₁ : s₁.Before z := ⟨hreported.storage, hreported.signatures⟩
    cases h' with
    | bound h' hw _ =>
      have hrel := (hvalue h h' hs hz₁).1.scope name
      rw [hv, hw] at hrel
      cases hrel
    | @fresh _ _ _ _ _ t₁ h' hw _ =>
      obtain ⟨hr, hle⟩ := hvalue h h' hs hz₁
      -- The name was unbound before the value as well, so nothing was wanted of it.
      rw [h.scope_grows.find?_eq_none hv, Option.map_none, wanted_none, Nat.zero_max] at hle
      have hreport : z.Retraced (s₁.reported (.autoDeclared name x.type place))
          (t₁.reported (.autoDeclared name y.type place)) := hr.aside (.refl _)
      have hafter := hreport.declared name hle false
      refine ⟨hafter, ?_⟩
      rw [hr.nextSlot name]
      exact hafter.readType_le hz (Table.find?_insert_self _ _ _) (rank_le_joinKnown _ _) _

/-- After a call for its value the result of the callee is its type, whether it was known or pinned. -/
theorem ExprRun.result_known {callee : String} {arguments : List Expr} {span : Span}
    {hint : Option NumType} {x : Typed.Expr} (h : ExprRun (.call callee arguments span) hint s x s') :
    ∃ signature typed s₁ known log after, s.signatures.find? callee = some signature ∧
      ArgumentsRun arguments signature.parameters s typed s₁ ∧
      s' = { s₁ with log := log, signatures := after } ∧ s₁.signatures.Grows after ∧
      after.find? callee = some known ∧ known.result = some x.type := by
  cases h with
  | call hs h hf _ hr => exact ⟨_, _, s', _, _, _, hs, h, rfl, .refl _, hf, hr⟩
  | pinningCall hs h hf hc =>
    exact ⟨_, _, _, _, _, _, hs, h, rfl, Table.grows_insert hf (Signature.grows_pinned _),
      Table.find?_insert_self _ _ _, rfl⟩

mutual

theorem Expr.retraces (z : Checker) (e : Expr) : e.Retraces z := by
  intro a b s s' t t' x y h h' hs hz
  match e with
  | .literal value span =>
    cases h
    cases h'
    exact ⟨hs, value.rank_typeFor_le a b⟩
  | .var name span =>
    cases h with
    | var hv =>
      cases h' with
      | var hw => exact ⟨hs, Nat.le_trans (hs.readType_var_le hz hv hw) (Nat.le_max_right _ _)⟩
  | .update op target targetSpan span =>
    cases h with
    | update hv =>
      cases h' with
      | update hw => exact ⟨hs, Nat.le_trans (hs.readType_var_le hz hv hw) (Nat.le_max_right _ _)⟩
  | .binary op left right span =>
    obtain ⟨first, s₁, second, hl, hr, hx⟩ := h.operands
    obtain ⟨first', t₁, second', hl', hr', hy⟩ := h'.operands
    have hz₁ := hz.of_grows hr.free.extends.toGrows
    obtain ⟨hs₁, hfirst⟩ := Expr.retraces z left hl hl' hs hz₁
    obtain ⟨hs₂, hsecond⟩ := Expr.retraces z right hr hr' hs₁ hz
    rw [hx, hy]
    exact ⟨hs₂, op.rank_typeOf_le hfirst hsecond⟩
  | .unary op operand span =>
    cases h with
    | unary h =>
      cases h' with
      | unary h' =>
        obtain ⟨hs₁, hle⟩ := Expr.retraces z operand h h' hs hz
        refine ⟨hs₁, ?_⟩
        by_cases hop : op = .not
        · simp [Typed.Expr.type, hop, rank]
        · simpa [Typed.Expr.type, hop] using hle
  | .assign target value span =>
    cases h with
    | assign h =>
      cases h' with
      | assign h' =>
        obtain ⟨hs₁, hle⟩ := h.retraced_of_value (Expr.retraces z value) h' hs hz
        exact ⟨hs₁, Nat.le_trans hle (Nat.le_max_right _ _)⟩
  | .convert operand written target span =>
    cases h with
    | @convert _ _ _ _ _ _ typed s₁ h =>
      cases h' with
      | @convert _ _ _ _ _ _ typed' t₁ h' =>
        obtain ⟨log, hlog⟩ := s₁.noted_eq written typed.type
        obtain ⟨log', hlog'⟩ := t₁.noted_eq written typed'.type
        rw [hlog] at hz ⊢
        rw [hlog']
        have hz₁ : s₁.Before z := ⟨hz.storage, hz.signatures⟩
        obtain ⟨hs₁, -⟩ := Expr.retraces z operand h h' hs hz₁
        exact ⟨hs₁.aside (.refl _), Nat.le_max_right _ _⟩
  | .call callee arguments span =>
    obtain ⟨signature, typed, s₁, known, log, after, hsig, hargs, rfl, hg, hk, hr⟩ := h.result_known
    obtain ⟨signature', typed', t₁, known', log', after', hsig', hargs', rfl, hg', hk', hr'⟩ :=
      h'.result_known
    have hz₁ : s₁.Before z := ⟨hz.storage, hg.trans hz.signatures⟩
    obtain ⟨later, hlater, hgrows⟩ :=
      ((hz₁.of_grows hargs.free.extends.toGrows).signatures.trans hs.signatures).known _ _ hsig
    rw [hsig'] at hlater
    cases hlater
    rw [hgrows.parameters] at hargs'
    have hs₁ := retracesAll z arguments hargs hargs' hs hz₁
    refine ⟨hs₁.aside hg', Nat.le_trans ?_ (Nat.le_max_right _ _)⟩
    -- What the earlier run knows of the callee is known, or has been widened, when the later one starts.
    obtain ⟨last, hlast, hgrows'⟩ := (hz.signatures.trans (hs₁.signatures.trans hg')).known _ _ hk
    rw [hk'] at hlast
    cases hlast
    obtain ⟨u, hu, hle⟩ := hgrows'.result _ hr
    rw [hr'] at hu
    cases hu
    exact hle

theorem retracesAll (z : Checker) (es : List Expr) {types : List NumType} {s s' t t' : Checker}
    {xs ys : List Typed.Expr} (h : ArgumentsRun es types s xs s') (h' : ArgumentsRun es types t ys t')
    (hs : z.Retraced s t) (hz : s'.Before z) : z.Retraced s' t' := by
  match es with
  | [] =>
    cases h
    cases h'
    exact hs
  | e :: es =>
    cases h with
    | cons h _ hrest =>
      cases h' with
      | cons h' _ hrest' =>
        have hz₁ := hz.of_grows hrest.free.extends.toGrows
        exact retracesAll z es hrest hrest' (Expr.retraces z e h h' hs hz₁).1 hz

end

end Expressions

section Statements

variable {z s s' t t' : Checker}

theorem Checker.Before.inside {scope : Scope} (h : (s.withScope scope).Before z) : s.Before z :=
  ⟨h.storage, h.signatures⟩

theorem AssignRun.retraced {name : String} {place : Position} {value : Expr} {slot slot' : String}
    {x y : Typed.Expr} {type type' : NumType} (h : AssignRun name place value s slot x type s')
    (h' : AssignRun name place value t slot' y type' t') (hs : z.Retraced s t) (hz : s'.Before z) :
    z.Retraced s' t' :=
  (h.retraced_of_value (value.retraces z) h' hs hz).1

theorem ExprRun?.retraced {e : Option Expr} {x y : Option Typed.Expr} (h : ExprRun? e s x s')
    (h' : ExprRun? e t y t') (hs : z.Retraced s t) (hz : s'.Before z) : z.Retraced s' t' := by
  cases h with
  | missing =>
    cases h'
    exact hs
  | @present e _ _ _ h =>
    cases h' with
    | present h' => exact (e.retraces z h h' hs hz).1

/-- A call for no value looks at the parameters alone. -/
theorem StmtRun.call_retraced {callee : String} {arguments : List Expr} {span : Span}
    {x y : Typed.Stmt} (h : StmtRun (.call callee arguments span) s x s')
    (h' : StmtRun (.call callee arguments span) t y t') (hs : z.Retraced s t) (hz : s'.Before z) :
    z.Retraced s' t' := by
  cases h with
  | call hsig h =>
    cases h' with
    | call hsig' h' =>
      have hz₀ := hz.of_grows h.free.extends.toGrows
      obtain ⟨later, hlater, hgrows⟩ := (hz₀.signatures.trans hs.signatures).known _ _ hsig
      rw [hsig'] at hlater
      cases hlater
      rw [hgrows.parameters] at h'
      exact retracesAll z arguments h h' hs hz

/-- The step of a loop is checked as a statement. -/
theorem StmtRun?.step_retraced {step : Option Expr} {x y : Option Typed.Stmt}
    (h : StmtRun? (step.map Stmt.ofExpr) s x s') (h' : StmtRun? (step.map Stmt.ofExpr) t y t')
    (hs : z.Retraced s t) (hz : s'.Before z) : z.Retraced s' t' := by
  cases step with
  | none =>
    cases h
    cases h'
    exact hs
  | some e =>
    cases h with
    | present h =>
      cases h' with
      | present h' =>
        cases e with
        | assign target value span =>
          cases h with
          | assign h =>
            cases h' with
            | assign h' => exact h.retraced h' hs hz
        | call callee arguments span => exact h.call_retraced h' hs hz
        | literal | var | binary | unary | update | convert =>
          cases h with
          | expression h =>
            cases h' with
            | expression h' => exact (Expr.retraces z _ h h' hs hz).1

/-- A return with a value sets a flag and perhaps the result of its function. -/
theorem StmtRun.returned {value : Expr} {span : Span} {x : Typed.Stmt}
    (h : StmtRun (.returnValue (some value) span) s x s') :
    ∃ hint typed s₁ after, ExprRun value hint s typed s₁ ∧
      s' = { s₁ with signatures := after, valuedReturn := true } ∧ s₁.signatures.Grows after := by
  cases h with
  | returnFixed _ _ h _ _ _ => exact ⟨_, _, _, _, h, rfl, .refl _⟩
  | returnInferred _ hs h _ _ hc =>
    exact ⟨_, _, _, _, h, rfl, (h.free.grows_inferred hs hc _).signatures⟩

mutual

theorem StmtRun.retraced (stmt : Stmt) {s s' t t' : Checker} {x y : Typed.Stmt}
    (h : StmtRun stmt s x s') (h' : StmtRun stmt t y t') (hs : z.Retraced s t) (hz : s'.Before z) :
    z.Retraced s' t' := by
  match stmt with
  | .function .. => cases h
  | .declare name declared none span =>
    cases h
    cases h'
    exact hs.declared name (Nat.le_refl _) _
  | .declare name declared (some value) span =>
    cases h with
    | declareValue h _ =>
      cases h' with
      | declareValue h' _ =>
        have hz₁ := hz.of_grows (Step.declare (N := fun _ => True) trivial).extends.toGrows
        obtain ⟨hs₁, hle⟩ := value.retraces z h h' hs hz₁
        apply hs₁.declared name
        cases declared with
        | none => simpa using hle
        | some type => exact Nat.le_refl _
  | .assign target value span =>
    cases h with
    | assign h =>
      cases h' with
      | assign h' => exact h.retraced h' hs hz
  | .branch condition yes no span =>
    cases h with
    | branch hc hy hn =>
      cases h' with
      | branch hc' hy' hn' =>
        have hz₃ := hz.inside
        have hz₂ := hz₃.of_grows hn.free.extends.toGrows
        have hz₁ := hz₂.inside.of_grows hy.free.extends.toGrows
        have hs₁ := (condition.retraces z hc hc' hs hz₁).1
        have hs₂ := StmtRun.retraced yes hy hy' hs₁ hz₂.inside
        have hbelow := hy.free.extends.storage
        have hs₃ := StmtRun?.retraced no hn hn' (hs₁.leave hs₂ hbelow) hz₃
        exact hs₁.leave hs₃ (hbelow.trans hn.free.extends.storage)
  | .whileLoop condition body span =>
    cases h with
    | whileLoop hc hb =>
      cases h' with
      | whileLoop hc' hb' =>
        have hz₂ := hz.inside
        have hz₁ := (hz₂.of_grows hb.free.extends.toGrows).inside
        have hs₁ := (condition.retraces z hc hc' hs hz₁).1
        have hs₂ := StmtRun.retraced body hb hb' hs₁.loopBody hz₂
        exact hs₁.leave hs₂ hb.free.extends.storage
  | .forLoop start condition step body span =>
    cases h with
    | forLoop hst hc hb hp =>
      cases h' with
      | forLoop hst' hc' hb' hp' =>
        have hz₄ := hz.inside
        have hz₃ := (hz₄.of_grows hp.free.extends.toGrows).inside
        have hz₂ := (hz₃.of_grows hb.free.extends.toGrows).inside
        have hz₁ := hz₂.of_grows hc.free.extends.toGrows
        have hs₁ := StmtRun?.retraced start hst hst' hs hz₁
        have hs₂ := hc.retraced hc' hs₁ hz₂
        have hs₃ := StmtRun.retraced body hb hb' hs₂.loopBody hz₃
        have hs₄ := hp.step_retraced hp' (hs₂.leave hs₃ hb.free.extends.storage) hz₄
        have hbelow := (hst.free.extends.storage.trans hc.free.extends.storage).trans
          (hb.free.extends.storage.trans hp.free.extends.storage)
        exact hs.leave hs₄ hbelow
  | .breakLoop span =>
    cases h
    cases h'
    exact hs
  | .continueLoop span =>
    cases h
    cases h'
    exact hs
  | .returnValue none span =>
    cases h
    cases h'
    exact hs.aside (.refl _)
  | .returnValue (some value) span =>
    obtain ⟨hint, typed, s₁, after, hvalue, rfl, hg⟩ := h.returned
    obtain ⟨hint', typed', t₁, after', hvalue', rfl, hg'⟩ := h'.returned
    have hz₁ : s₁.Before z := ⟨hz.storage, hg.trans hz.signatures⟩
    exact (value.retraces z hvalue hvalue' hs hz₁).1.aside hg'
  | .print value span =>
    cases h with
    | print h =>
      cases h' with
      | print h' => exact (value.retraces z h h' hs hz).1
  | .block body span =>
    cases h with
    | block h =>
      cases h' with
      | block h' => exact hs.leave (StmtsRun.retraced body h h' hs hz.inside) h.free.extends.storage
  | .expression value span =>
    cases h with
    | expression h =>
      cases h' with
      | expression h' => exact (value.retraces z h h' hs hz).1
  | .call callee arguments span => exact h.call_retraced h' hs hz

theorem StmtRun?.retraced (stmt : Option Stmt) {s s' t t' : Checker} {x y : Option Typed.Stmt}
    (h : StmtRun? stmt s x s') (h' : StmtRun? stmt t y t') (hs : z.Retraced s t) (hz : s'.Before z) :
    z.Retraced s' t' := by
  match stmt with
  | none =>
    cases h
    cases h'
    exact hs
  | some stmt =>
    cases h with
    | present h =>
      cases h' with
      | present h' => exact StmtRun.retraced stmt h h' hs hz

theorem StmtsRun.retraced (stmts : List Stmt) {s s' t t' : Checker} {xs ys : List Typed.Stmt}
    (h : StmtsRun stmts s xs s') (h' : StmtsRun stmts t ys t') (hs : z.Retraced s t)
    (hz : s'.Before z) : z.Retraced s' t' := by
  match stmts with
  | [] =>
    cases h
    cases h'
    exact hs
  | stmt :: stmts =>
    cases h with
    | cons h hrest =>
      cases h' with
      | cons h' hrest' =>
        have hz₁ := hz.of_grows hrest.free.extends.toGrows
        exact StmtsRun.retraced stmts hrest hrest' (StmtRun.retraced stmt h h' hs hz₁) hz

end

end Statements

end Numlet
