import Numlet.Proofs.Check.Asked

/-!
A body that is run over once more, after everything is settled. Where the first run was in one state, the
second is in a state with the same scope, storage and flags, which reads locals at the same types and knows
of every function what is known in the end. Where the first run handed down a type, the second may hand down
another one; the trees then differ by that alone.
-/
namespace Numlet
open Checking NumType

namespace Checker

/-- `z.Twin s u`: where one run was in the state `s`, another one, which knows all signatures of `z`, is in
the state `u`. -/
structure Twin (z s u : Checker) : Prop where
  options : u.options = s.options
  storage : u.storage = s.storage
  declarations : u.declarations = s.declarations
  bareReturn : u.bareReturn = s.bareReturn
  valuedReturn : u.valuedReturn = s.valuedReturn
  scope : u.scope = s.scope
  reads : ∀ slot, u.readTypes.find? slot = s.readTypes.find? slot
  signatures : ∀ name, u.signatures.find? name = z.signatures.find? name

namespace Twin

variable {z s s' u u' : Checker}

theorem readType_eq (h : z.Twin s u) (slot : String) (type : NumType) :
    u.readType slot type = s.readType slot type := by
  unfold Checker.readType
  rw [h.reads]

theorem nextSlot_eq (h : z.Twin s u) (name : String) : u.nextSlot name = s.nextSlot name := by
  unfold Checker.nextSlot
  rw [h.declarations]

/-- What the first run reports and knows of functions does not matter, nor what the second reports. -/
theorem aside (h : z.Twin s u) {log log' : Array Event} {before after : Table Signature}
    (ha : ∀ name, after.find? name = u.signatures.find? name) :
    z.Twin { s with log := log, signatures := before } { u with log := log', signatures := after } :=
  { h with signatures := fun name => (ha name).trans (h.signatures name) }

theorem withScope (h : z.Twin s u) (h' : z.Twin s' u') : z.Twin (s'.withScope s.scope) (u'.withScope u.scope) :=
  { h' with scope := h.scope }

theorem loopBody (h : z.Twin s u) : z.Twin (s.withScope s.scope.loopBody) (u.withScope u.scope.loopBody) :=
  { h with scope := congrArg Scope.loopBody h.scope }

theorem recorded (h : z.Twin s u) (slot : String) (type : NumType) :
    z.Twin (s.recorded slot type) (u.recorded slot type) where
  options := h.options
  storage := by
    change u.storage.insert slot _ = s.storage.insert slot _
    rw [h.storage]
  declarations := h.declarations
  bareReturn := h.bareReturn
  valuedReturn := h.valuedReturn
  scope := h.scope
  reads := h.reads
  signatures := h.signatures

theorem declared (h : z.Twin s u) (name : String) (type : NumType) (fixed : Bool) :
    z.Twin (s.declared name type fixed) (u.declared name type fixed) := by
  unfold Checker.declared
  rw [h.nextSlot_eq, h.declarations, h.scope]
  refine Twin.recorded ?_ _ _
  exact { h with declarations := rfl, scope := rfl }

theorem assigned (h : z.Twin s u) (name slot : String) (type : NumType) :
    z.Twin (s.assigned name slot type) (u.assigned name slot type) := by
  unfold Checker.assigned
  refine Twin.recorded ?_ _ _
  exact { h with scope := congrArg (·.retype name type) h.scope }

theorem noted (h : z.Twin s u) (written : Option NumType) (type : NumType) :
    z.Twin (s.noted written type) (u.noted written type) := by
  obtain ⟨log, hlog⟩ := s.noted_eq written type
  obtain ⟨log', hlog'⟩ := u.noted_eq written type
  rw [hlog, hlog']
  exact h.aside fun _ => rfl

end Twin
end Checker

/-- A constant holds no calls. -/
theorem ExprRun.callSettled_of_constant {e : Expr} {hint : Option NumType} {s s' : Checker} {t : Typed.Expr}
    (h : ExprRun e hint s t s') (hc : e.isConstant = true) (signatures : Table Signature) :
    ∀ x ∈ t.parts, x.CallSettled signatures := by
  cases h with
  | literal => exact fun x hx => (List.mem_singleton.mp hx) ▸ trivial
  | unary h =>
    simp only [Typed.Expr.parts, List.forall_mem_append, List.forall_mem_singleton]
    exact ⟨h.callSettled_of_constant hc signatures, trivial⟩
  | binary hl hr | widened _ hr _ hl =>
    simp only [Expr.isConstant, Bool.and_eq_true] at hc
    simp only [Typed.Expr.parts, List.forall_mem_append, List.forall_mem_singleton]
    exact ⟨⟨hl.callSettled_of_constant hc.1 signatures, hr.callSettled_of_constant hc.2 signatures⟩, trivial⟩
  | var | update | assign | convert | call | pinningCall => cases hc

/-- Where one run over `e` made `t` between `s` and `s'`, the other one makes of `e` what any wanted type
makes of `t`. -/
def Expr.Reruns (z : Checker) (e : Expr) (s : Checker) (t : Typed.Expr) (s' : Checker) : Prop :=
  ∀ ⦃u⦄, z.Twin s u → ∀ b, ∃ u', ExprRun e b u (t.asked b) u' ∧ z.Twin s' u'

namespace Expr.Reruns

variable {z s s₁ s₂ s' u : Checker} {e left right : Expr} {span : Span} {hint : Option NumType} {op : BinaryOp}
  {t l r : Typed.Expr} {operandType type : NumType}

/-- The other run over an expression of which the same type is wanted makes the same tree. -/
theorem self (hr : e.Reruns z s t s') (h : ExprRun e hint s t s') (hu : z.Twin s u) :
    ∃ u', ExprRun e hint u t u' ∧ z.Twin s' u' := by
  obtain ⟨u', hrun, hu'⟩ := hr hu hint
  rw [h.asked_self] at hrun
  exact ⟨u', hrun, hu'⟩

/-- An expression that looks at no wanted type is run over again to the same tree. -/
theorem of_no_hint (h : ExprRun e hint s t s') (he : e.takesHint = false)
    (hr : ∀ u, z.Twin s u → ∃ u', ExprRun e hint u t u' ∧ z.Twin s₁ u') : e.Reruns z s t s₁ := by
  intro u hu b
  obtain ⟨u', hrun, hu'⟩ := hr u hu
  rw [h.asked_of_no_hint he]
  exact ⟨u', hrun.any_hint he b, hu'⟩

theorem unary {op : UnaryOp} (h : ExprRun e (if op = .not then none else hint) s t s')
    (hr : e.Reruns z s t s') :
    (Expr.unary op e span).Reruns z s (.unary op t (if op = .not then .i32 else t.type) span) s' := by
  intro u hu b
  by_cases hop : op = .not
  · subst hop
    obtain ⟨u', hrun, hu'⟩ := hr.self h hu
    exact ⟨u', .unary hrun, hu'⟩
  · obtain ⟨u', hrun, hu'⟩ := hr hu b
    refine ⟨u', ?_, hu'⟩
    rw [Typed.Expr.asked_unary hop]
    have hsigned : ExprRun (.unary op e span) b u _ u' := .unary (by rwa [if_neg hop])
    rwa [if_neg hop] at hsigned

/-- Arithmetic is run over again if its operands are. The left one may now be checked twice. -/
theorem arithmetic (hop : op.isArithmetic = true) (ht : op.Types l.type r.type operandType type)
    (hc : l.isConstant = left.isConstant) (hl : left.Reruns z s l s₁) (hr : right.Reruns z s₁ r s₂)
    (hfl : ∀ b, (l.asked b).type.isFloat = l.type.isFloat)
    (hfr : ∀ b, (r.asked b).type.isFloat = r.type.isFloat) :
    (Expr.binary op left right span).Reruns z s (.binary op l r operandType type span) s₂ := by
  intro u hu b
  obtain ⟨u₁, hl₁, hu₁⟩ := hl hu b
  obtain ⟨u₂, hr₂, hu₂⟩ := hr hu₁ (rightHint (l.asked b).type b)
  have hhint : op.operandHint b = b := if_pos hop
  -- A remainder of whole numbers stays one.
  have htypes : ∀ x y, op.Types (l.asked x).type (r.asked y).type
      ((l.asked x).type.join (r.asked y).type) ((l.asked x).type.join (r.asked y).type) := by
    intro x y
    rw [BinaryOp.types_iff_of_arithmetic hop] at ht ⊢
    refine ⟨rfl, rfl, fun hrem => ?_⟩
    have hwhole := ht.2.2 hrem
    rwa [isFloat_join, hfl, hfr, ← isFloat_join]
  cases hw : op.widens left (l.asked b).type (r.asked (rightHint (l.asked b).type b)).type with
  | false =>
    refine ⟨u₂, ?_, hu₂⟩
    rw [Typed.Expr.asked_kept hop hc rfl rfl hw (htypes _ _)]
    exact .binary (by rwa [hhint]) (by rwa [hhint]) hw (htypes _ _)
  | true =>
    have hconstant := ((BinaryOp.widens_of_arithmetic hop _ _ _).mp hw).2
    obtain ⟨u₃, hagain, -⟩ := hl hu (some (r.asked (rightHint (l.asked b).type b)).type)
    refine ⟨u₂, ?_, hu₂⟩
    rw [Typed.Expr.asked_widened hop hc rfl rfl hw rfl (htypes _ _)]
    exact .widened (by rwa [hhint]) (by rwa [hhint]) hw (hagain.constant_at hconstant u₂) (htypes _ _)

theorem binary (hl : ExprRun left (op.operandHint hint) s l s₁)
    (hr : ExprRun right (rightHint l.type (op.operandHint hint)) s₁ r s₂)
    (hw : op.widens left l.type r.type = false) (ht : op.Types l.type r.type operandType type)
    (hl' : left.Reruns z s l s₁) (hr' : right.Reruns z s₁ r s₂) :
    (Expr.binary op left right span).Reruns z s (.binary op l r operandType type span) s₂ := by
  by_cases hop : op.isArithmetic = true
  · exact arithmetic hop ht hl.isConstant_eq hl' hr' hl.isFloat_asked hr.isFloat_asked
  · refine of_no_hint (.binary hl hr hw ht) (by simpa [Expr.takesHint] using hop) fun u hu => ?_
    obtain ⟨u₁, hl₁, hu₁⟩ := hl'.self hl hu
    obtain ⟨u₂, hr₂, hu₂⟩ := hr'.self hr hu₁
    exact ⟨u₂, .binary hl₁ hr₂ hw ht, hu₂⟩

theorem widened {again : Typed.Expr} (hl : ExprRun left (op.operandHint hint) s l s₁)
    (hr : ExprRun right (rightHint l.type (op.operandHint hint)) s₁ r s₂)
    (hw : op.widens left l.type r.type = true) (ha : ExprRun left (some r.type) s₂ again s')
    (ht : op.Types again.type r.type operandType type) (hl' : left.Reruns z s l s₁)
    (hr' : right.Reruns z s₁ r s₂) :
    (Expr.binary op left right span).Reruns z s (.binary op again r operandType type span) s' := by
  have hc : left.isConstant = true := (Bool.and_eq_true_iff.mp hw).2
  obtain rfl := ha.of_constant hc
  by_cases hop : op.isArithmetic = true
  · refine arithmetic hop ht ha.isConstant_eq (fun u hu b => ?_) hr' ha.isFloat_asked hr.isFloat_asked
    obtain ⟨u₁, hl₁, hu₁⟩ := hl' hu b
    rw [← left.asked_of_constant hc ha hl₁] at hl₁
    exact ⟨u₁, hl₁, hu₁⟩
  · refine of_no_hint (.widened hl hr hw ha ht) (by simpa [Expr.takesHint] using hop) fun u hu => ?_
    obtain ⟨u₁, hl₁, hu₁⟩ := hl'.self hl hu
    obtain ⟨u₂, hr₂, hu₂⟩ := hr'.self hr hu₁
    exact ⟨u₂, .widened hl₁ hr₂ hw (ha.constant_at hc u₂) ht, hu₂⟩

end Expr.Reruns

/-- A call for a value, where the result of the callee is settled. -/
theorem ExprRun.of_settled {z s s' u u' : Checker} {callee : String} {arguments : List Expr} {span : Span}
    {typed : List Typed.Expr} {types : List NumType} {type : NumType} {hint : Option NumType}
    (hu : z.Twin s u) (h : ArgumentsRun arguments types u typed u') (hu' : z.Twin s' u')
    (hcall : (Typed.Expr.call callee typed types span type span).CallSettled z.signatures) :
    ExprRun (.call callee arguments span) hint u (.call callee typed types span type span) u' := by
  obtain ⟨final, hfinal, rfl, -, hsettled, hresult⟩ := hcall
  exact .call ((hu.signatures _).trans hfinal) h ((hu'.signatures _).trans hfinal) hsettled hresult

mutual

/-- The second run over an expression. -/
theorem ExprRun.rerun {e : Expr} {hint : Option NumType} {z s s' : Checker} {t : Typed.Expr}
    (h : ExprRun e hint s t s') (hz : ∀ x ∈ t.parts, x.CallSettled z.signatures) :
    e.Reruns z s t s' := by
  match h with
  | .literal => exact fun u hu b => ⟨u, .literal, hu⟩
  | .var hv =>
    intro u hu b
    refine ⟨u, ?_, hu⟩
    rw [← hu.scope] at hv
    rw [← hu.readType_eq]
    exact .var hv
  | .update hv =>
    intro u hu b
    refine ⟨u, ?_, hu⟩
    rw [← hu.scope] at hv
    rw [← hu.readType_eq]
    exact .update hv
  | .unary h =>
    simp only [Typed.Expr.parts, List.forall_mem_append] at hz
    exact .unary h (h.rerun hz.1)
  | .binary hl hr hw ht =>
    simp only [Typed.Expr.parts, List.forall_mem_append] at hz
    exact .binary hl hr hw ht (hl.rerun hz.1.1) (hr.rerun hz.1.2)
  | .widened hl hr hw ha ht =>
    simp only [Typed.Expr.parts, List.forall_mem_append] at hz
    have hzl := hl.callSettled_of_constant (Bool.and_eq_true_iff.mp hw).2 z.signatures
    exact .widened hl hr hw ha ht (hl.rerun hzl) (hr.rerun hz.1.2)
  | .assign h =>
    simp only [Typed.Expr.parts, List.forall_mem_append] at hz
    intro u hu b
    obtain ⟨u', hrun, hu'⟩ := h.rerun hu hz.1
    refine ⟨u', ?_, hu'⟩
    rw [← hu'.readType_eq]
    exact .assign hrun
  | .convert h =>
    simp only [Typed.Expr.parts, List.forall_mem_append] at hz
    intro u hu b
    obtain ⟨u', hrun, hu'⟩ := (h.rerun hz.1).self h hu
    exact ⟨_, .convert hrun, hu'.noted _ _⟩
  | .call hs h hf hc hr =>
    simp only [Typed.Expr.parts, List.forall_mem_append, List.forall_mem_singleton] at hz
    intro u hu b
    obtain ⟨u', hrun, hu'⟩ := h.rerun hu hz.1
    exact ⟨u', .of_settled hu hrun hu' hz.2, hu'⟩
  | .pinningCall hs h hf hc =>
    -- The first run pinned the result to what it is in the end, where nothing is left to pin.
    simp only [Typed.Expr.parts, List.forall_mem_append, List.forall_mem_singleton] at hz
    intro u hu b
    obtain ⟨u', hrun, hu'⟩ := h.rerun hu hz.1
    exact ⟨u', .of_settled hu hrun hu' hz.2, hu'.aside fun _ => rfl⟩

theorem AssignRun.rerun {name : String} {place : Position} {value : Expr} {z s s' u : Checker}
    {slot : String} {t : Typed.Expr} {type : NumType} (h : AssignRun name place value s slot t type s')
    (hu : z.Twin s u) (hz : ∀ x ∈ t.parts, x.CallSettled z.signatures) :
    ∃ u', AssignRun name place value u slot t type u' ∧ z.Twin s' u' := by
  match h with
  | .bound h hv ht =>
    obtain ⟨u', hrun, hu'⟩ := (h.rerun hz).self h hu
    rw [← hu.scope] at hrun
    rw [← hu'.scope] at hv
    exact ⟨_, .bound hrun hv ht, hu'.assigned _ _ _⟩
  | .fresh h hv ha =>
    obtain ⟨u', hrun, hu'⟩ := (h.rerun hz).self h hu
    rw [← hu.scope] at hrun
    rw [← hu'.scope] at hv
    rw [← hu'.options] at ha
    rw [← hu'.nextSlot_eq]
    exact ⟨_, .fresh hrun hv ha, Checker.Twin.declared (hu'.aside fun _ => rfl) _ _ _⟩

theorem ArgumentsRun.rerun {es : List Expr} {types : List NumType} {z s s' u : Checker} {ts : List Typed.Expr}
    (h : ArgumentsRun es types s ts s') (hu : z.Twin s u)
    (hz : ∀ x ∈ Typed.partsOfExprs ts, x.CallSettled z.signatures) :
    ∃ u', ArgumentsRun es types u ts u' ∧ z.Twin s' u' := by
  match h with
  | .nil => exact ⟨u, .nil, hu⟩
  | .cons h hp hs =>
    simp only [Typed.partsOfExprs, List.forall_mem_append] at hz
    obtain ⟨u₁, hrun, hu₁⟩ := (h.rerun hz.1).self h hu
    obtain ⟨u₂, hruns, hu₂⟩ := hs.rerun hu₁ hz.2
    exact ⟨u₂, .cons hrun hp hruns, hu₂⟩

end

theorem ExprRun.rerun_self {e : Expr} {hint : Option NumType} {z s s' u : Checker} {t : Typed.Expr}
    (h : ExprRun e hint s t s') (hu : z.Twin s u) (hz : ∀ x ∈ t.parts, x.CallSettled z.signatures) :
    ∃ u', ExprRun e hint u t u' ∧ z.Twin s' u' :=
  (h.rerun hz).self h hu

theorem ExprRun?.rerun {e : Option Expr} {z s s' u : Checker} {t : Option Typed.Expr} (h : ExprRun? e s t s')
    (hu : z.Twin s u) (hz : ∀ x ∈ Typed.partsOfExpr? t, x.CallSettled z.signatures) :
    ∃ u', ExprRun? e u t u' ∧ z.Twin s' u' := by
  cases h with
  | missing => exact ⟨u, .missing, hu⟩
  | present h =>
    obtain ⟨u', hrun, hu'⟩ := h.rerun_self hu hz
    exact ⟨u', .present hrun, hu'⟩

namespace Typed

mutual

/-- The statement, where the returned values have the types that they have if `result` is wanted. -/
def Stmt.returning (result : Option NumType) : Stmt → Stmt
  | .branch condition yes no span =>
    .branch condition (yes.returning result) (returningStmt? result no) span
  | .loop start condition body step span =>
    .loop (returningStmt? result start) condition (body.returning result) (returningStmt? result step) span
  | .returnValue value span => .returnValue (value.map (·.asked result)) span
  | .block body span => .block (returningStmts result body) span
  | .declare slot value type span => .declare slot value type span
  | .assign slot value span => .assign slot value span
  | .breakLoop span => .breakLoop span
  | .continueLoop span => .continueLoop span
  | .print value span => .print value span
  | .expression value => .expression value
  | .call callee arguments parameterTypes span => .call callee arguments parameterTypes span

def returningStmt? (result : Option NumType) : Option Stmt → Option Stmt
  | none => none
  | some s => some (s.returning result)

def returningStmts (result : Option NumType) : List Stmt → List Stmt
  | [] => []
  | s :: ss => s.returning result :: returningStmts result ss

end

end Typed

/-- What the expressions and statements of a body have to do with the end `z` of a program, where its
function has a result. -/
structure Checker.Settles (z : Checker) (result : Option NumType) (exprs : List Typed.Expr)
    (parts : List Typed.Stmt) : Prop where
  exprs : ∀ x ∈ exprs, x.CallSettled z.signatures
  stmts : ∀ x ∈ parts, x.CallKnown z.signatures
  returned : ∀ value span, .returnValue (some value) span ∈ parts →
    ∃ r, result = some r ∧ value.type.rank ≤ r.rank
  returnedBare : ∀ span, .returnValue none span ∈ parts → result = none

theorem Checker.Settles.mono {z : Checker} {result : Option NumType} {xs ys : List Typed.Expr}
    {ps qs : List Typed.Stmt} (h : z.Settles result xs ps) (he : ∀ x ∈ ys, x ∈ xs) (hp : ∀ x ∈ qs, x ∈ ps) :
    z.Settles result ys qs where
  exprs x hx := h.exprs x (he x hx)
  stmts x hx := h.stmts x (hp x hx)
  returned value span hx := h.returned value span (hp _ hx)
  returnedBare span hx := h.returnedBare span (hp _ hx)

/-- The current function has the result in the end. -/
def Checker.Ends (z s : Checker) (result : Option NumType) : Prop :=
  ∀ f, s.scope.function = some f → ∃ signature, z.signatures.find? f = some signature ∧
    signature.result = result

section Returns

variable {z s s₁ u : Checker} {result : Option NumType}

theorem Checker.Ends.of_function {s' : Checker} (h : z.Ends s result)
    (hf : s'.scope.function = s.scope.function) : z.Ends s' result :=
  fun f hs => h f (hf.symm.trans hs)

/-- A return with a value leaves the result as it is in the end. -/
theorem StmtRun.rerun_return {value : Expr} {span : Span} {hint : Option NumType} {f : String}
    {typed : Typed.Expr} (hf : s.scope.function = some f) (h : ExprRun value hint s typed s₁)
    (hb : s₁.bareReturn = false) (hu : z.Twin s u) (hend : z.Ends s result)
    (hz : z.Settles result typed.parts [.returnValue (some typed) span]) (before : Table Signature) :
    ∃ u', StmtRun (.returnValue (some value) span) u (.returnValue (some (typed.asked result)) span) u' ∧
      z.Twin { s₁ with signatures := before, valuedReturn := true } u' := by
  obtain ⟨r, rfl, hle⟩ := hz.returned typed span (List.mem_singleton.mpr rfl)
  obtain ⟨signature, hsig, hr⟩ := hend f hf
  obtain ⟨u₁, hrun, hu₁⟩ := h.rerun hz.exprs hu (some r)
  have hfits : (typed.asked (some r)).type.rank ≤ r.rank := by
    have hwanted := h.rank_asked_le (some r)
    rw [wanted_some] at hwanted
    omega
  have hf' : u.scope.function = some f := by rw [hu.scope, hf]
  have hb' : u₁.bareReturn = false := hu₁.bareReturn.trans hb
  rw [← hr] at hrun hfits ⊢
  cases hx : signature.resultFixed with
  | true =>
    refine ⟨_, .returnFixed hf' ((hu.signatures f).trans hsig) hrun hb' hx ?_, { hu₁ with valuedReturn := rfl }⟩
    rw [hr] at hfits ⊢
    exact hfits
  | false =>
    refine ⟨_, .returnInferred hf' ((hu.signatures f).trans hsig) hrun hb' hx
      ((hu₁.signatures f).trans hsig), { hu₁ with valuedReturn := rfl, signatures := fun name => ?_ }⟩
    have hsame : { signature with
        result := some (joinKnown signature.result (some (typed.asked signature.result).type)) } =
          signature := by
      rw [hr] at hfits ⊢
      rw [joinKnown_some, join_eq_left hfits, ← hr]
    change (u₁.signatures.insert f _).find? name = _
    rw [hsame, Table.find?_insert]
    split
    · next hname => rw [hname, hsig]
    · exact hu₁.signatures name

end Returns

/-- A call on its own, where the parameters of the callee are known. -/
theorem StmtRun.of_known {z s u u' : Checker} {callee : String} {arguments : List Expr} {span : Span}
    {typed : List Typed.Expr} {types : List NumType} (hu : z.Twin s u)
    (h : ArgumentsRun arguments types u typed u')
    (hcall : (Typed.Stmt.call callee typed types span).CallKnown z.signatures) :
    StmtRun (.call callee arguments span) u (.call callee typed types span) u' := by
  obtain ⟨final, hfinal, rfl, -⟩ := hcall
  exact .call ((hu.signatures _).trans hfinal) h

mutual

/-- The second run over a statement. -/
theorem StmtRun.rerun {stmt : Stmt} {z s s' u : Checker} {t : Typed.Stmt} {result : Option NumType}
    (h : StmtRun stmt s t s') (hu : z.Twin s u) (hend : z.Ends s result)
    (hz : z.Settles result t.exprs t.parts) :
    ∃ u', StmtRun stmt u (t.returning result) u' ∧ z.Twin s' u' := by
  match h with
  | .declare =>
    rw [← hu.nextSlot_eq]
    exact ⟨_, .declare, hu.declared _ _ _⟩
  | .declareValue h hf =>
    obtain ⟨u₁, hrun, hu₁⟩ := h.rerun_self hu hz.exprs
    rw [← hu₁.nextSlot_eq]
    exact ⟨_, .declareValue hrun hf, hu₁.declared _ _ _⟩
  | .assign h =>
    obtain ⟨u₁, hrun, hu₁⟩ := h.rerun hu hz.exprs
    exact ⟨u₁, .assign hrun, hu₁⟩
  | .branch hc hy hn =>
    have hexprs := hz.exprs
    simp only [Typed.Stmt.exprs, List.forall_mem_append] at hexprs
    obtain ⟨u₁, hc₁, hu₁⟩ := hc.rerun_self hu hexprs.1.1
    have hend₁ := hend.of_function hc.free.extends.function
    obtain ⟨u₂, hy₂, hu₂⟩ := hy.rerun hu₁ hend₁
      (hz.mono (by simp +contextual [Typed.Stmt.exprs]) (by simp +contextual [Typed.Stmt.parts]))
    obtain ⟨u₃, hn₃, hu₃⟩ := hn.rerun (hu₁.withScope hu₂) hend₁
      (hz.mono (by simp +contextual [Typed.Stmt.exprs]) (by simp +contextual [Typed.Stmt.parts]))
    exact ⟨_, .branch hc₁ hy₂ hn₃, hu₁.withScope hu₃⟩
  | .whileLoop hc hb =>
    have hexprs := hz.exprs
    simp only [Typed.Stmt.exprs, List.forall_mem_append] at hexprs
    obtain ⟨u₁, hc₁, hu₁⟩ := hc.rerun_self hu hexprs.1.1.2
    have hend₁ := hend.of_function hc.free.extends.function
    obtain ⟨u₂, hb₂, hu₂⟩ := hb.rerun hu₁.loopBody hend₁
      (hz.mono (by simp +contextual [Typed.Stmt.exprs]) (by simp +contextual [Typed.Stmt.parts]))
    exact ⟨_, .whileLoop hc₁ hb₂, hu₁.withScope hu₂⟩
  | .forLoop hs hc hb hp =>
    have hexprs := hz.exprs
    simp only [Typed.Stmt.exprs, List.forall_mem_append] at hexprs
    obtain ⟨u₁, hs₁, hu₁⟩ := hs.rerun hu hend
      (hz.mono (by simp +contextual [Typed.Stmt.exprs]) (by simp +contextual [Typed.Stmt.parts]))
    have hend₁ := hend.of_function hs.free.extends.function
    obtain ⟨u₂, hc₂, hu₂⟩ := hc.rerun hu₁ hexprs.1.1.2
    have hend₂ := hend₁.of_function hc.free.extends.function
    obtain ⟨u₃, hb₃, hu₃⟩ := hb.rerun hu₂.loopBody hend₂
      (hz.mono (by simp +contextual [Typed.Stmt.exprs]) (by simp +contextual [Typed.Stmt.parts]))
    obtain ⟨u₄, hp₄, hu₄⟩ := hp.rerun (hu₂.withScope hu₃) hend₂
      (hz.mono (by simp +contextual [Typed.Stmt.exprs]) (by simp +contextual [Typed.Stmt.parts]))
    exact ⟨_, .forLoop hs₁ hc₂ hb₃ hp₄, hu.withScope hu₄⟩
  | .breakLoop hl => exact ⟨u, .breakLoop (by rwa [hu.scope]), hu⟩
  | .continueLoop hl => exact ⟨u, .continueLoop (by rwa [hu.scope]), hu⟩
  | .returnBare hf hs hr =>
    obtain ⟨signature, hsig, hresult⟩ := hend _ hf
    have hnone := hresult.trans (hz.returnedBare _ (List.mem_singleton.mpr rfl))
    exact ⟨_, .returnBare (by rwa [hu.scope]) ((hu.signatures _).trans hsig) hnone,
      { hu with bareReturn := rfl }⟩
  | .returnFixed hf hs h hb hx ht => exact StmtRun.rerun_return hf h hb hu hend hz _
  | .returnInferred hf hs h hb hx hc => exact StmtRun.rerun_return hf h hb hu hend hz _
  | .print h =>
    obtain ⟨u₁, hrun, hu₁⟩ := h.rerun_self hu hz.exprs
    exact ⟨u₁, .print hrun, hu₁⟩
  | .block h =>
    obtain ⟨u₁, hrun, hu₁⟩ := h.rerun hu hend
      (hz.mono (fun _ hx => hx) (by simp +contextual [Typed.Stmt.parts]))
    exact ⟨_, .block hrun, hu.withScope hu₁⟩
  | .expression h =>
    obtain ⟨u₁, hrun, hu₁⟩ := h.rerun_self hu hz.exprs
    exact ⟨u₁, .expression hrun, hu₁⟩
  | .call hs h =>
    obtain ⟨u₁, hrun, hu₁⟩ := h.rerun hu hz.exprs
    exact ⟨u₁, .of_known hu hrun (hz.stmts _ (List.mem_singleton.mpr rfl)), hu₁⟩

theorem StmtRun?.rerun {stmt : Option Stmt} {z s s' u : Checker} {t : Option Typed.Stmt}
    {result : Option NumType} (h : StmtRun? stmt s t s') (hu : z.Twin s u) (hend : z.Ends s result)
    (hz : z.Settles result (Typed.exprsOfStmt? t) (Typed.partsOfStmt? t)) :
    ∃ u', StmtRun? stmt u (Typed.returningStmt? result t) u' ∧ z.Twin s' u' := by
  match h with
  | .missing => exact ⟨u, .missing, hu⟩
  | .present h =>
    obtain ⟨u', hrun, hu'⟩ := h.rerun hu hend hz
    exact ⟨u', .present hrun, hu'⟩

theorem StmtsRun.rerun {stmts : List Stmt} {z s s' u : Checker} {ts : List Typed.Stmt}
    {result : Option NumType} (h : StmtsRun stmts s ts s') (hu : z.Twin s u) (hend : z.Ends s result)
    (hz : z.Settles result (Typed.exprsOfStmts ts) (Typed.partsOfStmts ts)) :
    ∃ u', StmtsRun stmts u (Typed.returningStmts result ts) u' ∧ z.Twin s' u' := by
  match h with
  | .nil => exact ⟨u, .nil, hu⟩
  | .cons h hs =>
    obtain ⟨u₁, hrun, hu₁⟩ := h.rerun hu hend
      (hz.mono (fun _ hx => List.mem_append_left _ hx) (fun _ hx => List.mem_append_left _ hx))
    obtain ⟨u₂, hruns, hu₂⟩ := hs.rerun hu₁ (hend.of_function h.free.extends.function)
      (hz.mono (fun _ hx => List.mem_append_right _ hx) (fun _ hx => List.mem_append_right _ hx))
    exact ⟨u₂, .cons hrun hruns, hu₂⟩

end

end Numlet
