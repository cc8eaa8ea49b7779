import Numlet.Proofs.Alike
import Numlet.Proofs.Check.Growth
import Numlet.Proofs.Typed.Relocated

/-!
Two checks of one tree, that may stand elsewhere in the second. A check looks at no place, and of the functions
other than the one that it is in it asks for the parameters, and for the result where a call is used for its
value. So two checks run alike if their states agree on these functions.
-/
namespace Numlet

mutual

/-- The functions whose values an expression uses. -/
def Expr.usedCalls : Expr → List String
  | .literal _ _ | .var _ _ | .update _ _ _ _ => []
  | .binary _ left right _ => left.usedCalls ++ right.usedCalls
  | .unary _ operand _ | .convert operand _ _ _ => operand.usedCalls
  | .assign _ value _ => value.usedCalls
  | .call callee arguments _ => callee :: usedCallsOfExprs arguments

def usedCallsOfExprs : List Expr → List String
  | [] => []
  | e :: es => e.usedCalls ++ usedCallsOfExprs es

end

def usedCallsOfExpr? (e : Option Expr) : List String := (e.map Expr.usedCalls).getD []

/-- An expression that stands as a statement: the value of a call is dropped. -/
def Expr.usedAsStmt : Expr → List String
  | .call _ arguments _ => usedCallsOfExprs arguments
  | e => e.usedCalls

mutual

/-- The functions whose values a statement uses. -/
def Stmt.usedCalls : Stmt → List String
  | .function _ _ _ _ _ _ | .breakLoop _ | .continueLoop _ => []
  | .declare _ _ value _ | .returnValue value _ => usedCallsOfExpr? value
  | .assign _ value _ | .print value _ | .expression value _ => value.usedCalls
  | .branch condition yes no _ => condition.usedCalls ++ yes.usedCalls ++ usedCallsOfStmt? no
  | .whileLoop condition body _ => condition.usedCalls ++ body.usedCalls
  | .forLoop start condition step body _ =>
    usedCallsOfStmt? start ++ usedCallsOfExpr? condition ++ (step.map Expr.usedAsStmt).getD [] ++
      body.usedCalls
  | .block body _ => usedCallsOfStmts body
  | .call _ arguments _ => usedCallsOfExprs arguments

def usedCallsOfStmt? : Option Stmt → List String
  | none => []
  | some s => s.usedCalls

def usedCallsOfStmts : List Stmt → List String
  | [] => []
  | s :: ss => s.usedCalls ++ usedCallsOfStmts ss

end

/-- Signatures that give the same answer to every caller. -/
structure Signature.Agrees (s t : Signature) : Prop where
  parameters : t.parameters = s.parameters
  result : t.result = s.result
  resultFixed : t.resultFixed = s.resultFixed
  known : (t.resultFixed || t.checked) = (s.resultFixed || s.checked)

/-- States of two checks that agree on the body at hand, on all parameters and on the results of the
functions in `K`, the one at hand among them. -/
structure Checker.Coupled (K : String → Prop) (s t : Checker) : Prop where
  options : t.options = s.options
  storage : t.storage = s.storage
  readTypes : t.readTypes = s.readTypes
  declarations : t.declarations = s.declarations
  bareReturn : t.bareReturn = s.bareReturn
  valuedReturn : t.valuedReturn = s.valuedReturn
  scope : t.scope = s.scope
  function : ∀ name, s.scope.function = some name → K name
  parameters : ∀ name,
    (t.signatures.find? name).map (·.parameters) = (s.signatures.find? name).map (·.parameters)
  agrees : ∀ name signature signature', K name → s.signatures.find? name = some signature →
    t.signatures.find? name = some signature' → signature.Agrees signature'

namespace Checker.Coupled

variable {K : String → Prop} {s t : Checker}

/-- Both states know a function or neither does. -/
theorem signature_cases (h : s.Coupled K t) (name : String) :
    (s.signatures.find? name = none ∧ t.signatures.find? name = none) ∨
      ∃ signature signature', s.signatures.find? name = some signature ∧
        t.signatures.find? name = some signature' ∧ signature'.parameters = signature.parameters := by
  have hp := h.parameters name
  cases hs : s.signatures.find? name with
  | none =>
    rw [hs, Option.map_none, Option.map_eq_none_iff] at hp
    exact .inl ⟨rfl, hp⟩
  | some signature =>
    rw [hs, Option.map_some, Option.map_eq_some_iff] at hp
    obtain ⟨signature', ht, hq⟩ := hp
    exact .inr ⟨signature, signature', rfl, ht, hq⟩

theorem log (h : s.Coupled K t) (e e' : Array Event) :
    Coupled K { s with log := e } { t with log := e' } :=
  ⟨h.options, h.storage, h.readTypes, h.declarations, h.bareReturn, h.valuedReturn, h.scope,
    h.function, h.parameters, h.agrees⟩

theorem withScope (h : s.Coupled K t) (scope : Scope)
    (hf : ∀ name, scope.function = some name → K name) :
    Coupled K { s with scope := scope } { t with scope := scope } :=
  ⟨h.options, h.storage, h.readTypes, h.declarations, h.bareReturn, h.valuedReturn, rfl, hf,
    h.parameters, h.agrees⟩

/-- A function gets signatures that agree, with the parameters that it had. -/
theorem insert (h : s.Coupled K t) {name : String} {signature signature' : Signature}
    (hagrees : signature.Agrees signature') :
    Coupled K { s with signatures := s.signatures.insert name signature }
      { t with signatures := t.signatures.insert name signature' } := by
  refine ⟨h.options, h.storage, h.readTypes, h.declarations, h.bareReturn, h.valuedReturn, h.scope,
    h.function, ?_, ?_⟩
  · intro other
    simp only [Table.find?_insert]
    by_cases hn : other = name
    · rw [if_pos hn, if_pos hn, Option.map_some, Option.map_some, hagrees.parameters]
    · rw [if_neg hn, if_neg hn, h.parameters]
  · intro other signature₁ signature₂ hK h₁ h₂
    simp only [Table.find?_insert] at h₁ h₂
    by_cases hn : other = name
    · rw [if_pos hn] at h₁ h₂
      cases h₁
      cases h₂
      exact hagrees
    · rw [if_neg hn] at h₁ h₂
      exact h.agrees other signature₁ signature₂ hK h₁ h₂

end Checker.Coupled

theorem Signature.Agrees.fixed {s t : Signature} (h : s.Agrees t) (result : Option NumType) :
    Signature.Agrees { s with result := result, resultFixed := true }
      { t with result := result, resultFixed := true } := ⟨h.parameters, rfl, rfl, rfl⟩

theorem Signature.Agrees.withResult {s t : Signature} (h : s.Agrees t) (result : Option NumType) :
    Signature.Agrees { s with result := result } { t with result := result } :=
  ⟨h.parameters, rfl, h.resultFixed, h.known⟩

namespace Checking

variable {K : String → Prop} {α β : Type} {Q : α → β → Prop}

theorem report_alike (event event' : Event) :
    RunsAlike (Checker.Coupled K) (fun _ _ => True) (report event) (report event') :=
  .modify fun _ _ h => h.log _ _

theorem within_alike {enter : Scope → Scope} {m : Checking α} {n : Checking β}
    (henter : ∀ scope name, (enter scope).function = some name → scope.function = some name ∨ K name)
    (h : RunsAlike (Checker.Coupled K) Q m n) :
    RunsAlike (Checker.Coupled K) Q (within enter m) (within enter n) := by
  intro s t hs
  have hin : Checker.Coupled K { s with scope := enter s.scope } { t with scope := enter t.scope } := by
    rw [hs.scope]
    exact hs.withScope _ fun name hname => (henter _ _ hname).elim (hs.function name) id
  unfold within
  obtain ⟨a, s', b, t', hm, hn, hQ, hs'⟩ | ⟨d, s', e, t', hm, hn, hfault, hs'⟩ := (h _ _ hin).cases
  · rw [hm, hn, hs.scope]
    exact ⟨hQ, hs'.withScope _ hs.function⟩
  · rw [hm, hn, hs.scope]
    exact ⟨hfault, hs'.withScope _ hs.function⟩

theorem record_alike (slot : String) (type : NumType) :
    RunsAlike (Checker.Coupled K) (fun _ _ => True) (record slot type) (record slot type) := by
  unfold record
  refine .bind .get fun s t hst => ?_
  rw [hst.storage]
  have hinsert : ∀ widened, RunsAlike (Checker.Coupled K) (fun _ _ => True)
      (modify fun s => { s with storage := s.storage.insert slot widened } : Checking Unit)
      (modify fun s => { s with storage := s.storage.insert slot widened } : Checking Unit) := by
    intro widened
    refine .modify fun s t h => ?_
    rw [h.storage]
    exact ⟨h.options, rfl, h.readTypes, h.declarations, h.bareReturn, h.valuedReturn, h.scope,
      h.function, h.parameters, h.agrees⟩
  refine .ite Iff.rfl ?_ ?_
  · exact .bind (report_alike _ _) fun _ _ _ => hinsert _
  · exact hinsert _

theorem declareLocal_alike (name : String) (type : NumType) (fixed : Bool) :
    RunsAlike (Checker.Coupled K) (fun slot slot' => slot' = slot) (declareLocal name type fixed)
      (declareLocal name type fixed) := by
  unfold declareLocal
  refine .bind .get fun s t hst => ?_
  rw [hst.declarations]
  refine .bind (P := fun _ _ => True) ?_ fun _ _ _ => .bind (record_alike _ _) fun _ _ _ => .pure rfl
  refine .modify fun s t h => ?_
  rw [h.declarations, h.scope]
  exact ⟨h.options, h.storage, h.readTypes, rfl, h.bareReturn, h.valuedReturn, rfl, h.function,
    h.parameters, h.agrees⟩

theorem readType_alike (slot : String) (type : NumType) :
    RunsAlike (Checker.Coupled K) (fun a b => b = a) (readType slot type) (readType slot type) := by
  unfold readType
  refine .bind .get fun s t hst => .pure ?_
  rw [hst.readTypes]

theorem lookup?_alike (name : String) :
    RunsAlike (Checker.Coupled K) (fun a b => b = a) (lookup? name) (lookup? name) := by
  unfold lookup?
  refine .bind .get fun s t hst => .pure ?_
  rw [hst.scope]

theorem variableOf_alike (name : String) (span span' : Span) :
    RunsAlike (Checker.Coupled K) (fun a b => b = a) (variableOf name span)
      (variableOf name span') := by
  unfold variableOf
  refine .bind (lookup?_alike name) ?_
  rintro _ v rfl
  cases v with
  | none => exact .throw rfl
  | some v => exact .pure rfl

/-- What is known of a function differs only for functions outside `K`, and not in the parameters. -/
theorem signatureOf_alike (name : String) (span span' : Span) :
    RunsAlike (Checker.Coupled K)
      (fun a b => b.parameters = a.parameters ∧ (K name → a.Agrees b)) (signatureOf name span)
      (signatureOf name span') := by
  unfold signatureOf
  refine .bind .get fun s t hst => ?_
  obtain ⟨hs, ht⟩ | ⟨signature, signature', hs, ht, hp⟩ := hst.signature_cases name
  · rw [hs, ht]
    exact .throw rfl
  · rw [hs, ht]
    exact .pure ⟨hp, fun hK => hst.agrees name _ _ hK hs ht⟩

theorem setSignature_alike (name : String) {signature signature' : Signature}
    (h : signature.Agrees signature') :
    RunsAlike (Checker.Coupled K) (fun _ _ => True) (setSignature name signature)
      (setSignature name signature') :=
  .modify fun _ _ hst => hst.insert h

section Expressions

variable {φ : Span → Span}

theorem assignTo_alike (target : Expr) {check check' : Option NumType → Checking Typed.Expr}
    (hcheck : ∀ hint, RunsAlike (Checker.Coupled K) (fun a b => b = a.relocated φ) (check hint)
      (check' hint)) :
    RunsAlike (Checker.Coupled K) (fun a b => b = (a.1, a.2.1.relocated φ, a.2.2))
      (assignTo target check) (assignTo (target.relocated φ) check') := by
  cases target with
  | var name span =>
    unfold assignTo
    refine .bind (lookup?_alike name) ?_
    rintro _ v rfl
    refine .bind (hcheck _) ?_
    rintro value _ rfl
    refine .bind (lookup?_alike name) ?_
    rintro _ v rfl
    cases v with
    | none =>
      refine .bind .get fun s t hst => ?_
      refine .ite (by rw [hst.options]) ?_ (.throw rfl)
      refine .bind (report_alike _ _) fun _ _ _ => ?_
      simp only [Typed.Expr.type_relocated]
      refine .bind (declareLocal_alike _ _ _) ?_
      rintro _ slot rfl
      exact .pure rfl
    | some v =>
      simp only [Typed.Expr.type_relocated]
      split
      · exact .throw rfl
      · refine .bind (P := fun _ _ => True) ?_ fun _ _ _ =>
          .bind (record_alike _ _) fun _ _ _ => .pure rfl
        refine .modify fun s t h => ?_
        rw [h.scope]
        exact h.withScope _ fun name' hname' => h.function name' (by rwa [Scope.function_retype] at hname')
  | literal => exact .throw rfl
  | binary => exact .throw rfl
  | unary => exact .throw rfl
  | update => exact .throw rfl
  | assign => exact .throw rfl
  | convert => exact .throw rfl
  | call => exact .throw rfl

theorem checkArity_alike (callee : String) (arguments : List Expr) (expected : Nat)
    (span span' : Span) :
    RunsAlike (Checker.Coupled K) (fun _ _ => True) (checkArity callee arguments expected span)
      (checkArity callee (relocatedExprs φ arguments) expected span') := by
  unfold checkArity
  simp only [relocatedExprs_eq_map, List.length_map, ← List.map_drop]
  refine .ite Iff.rfl (.throw rfl) ?_
  cases arguments.drop expected with
  | nil => exact .pure trivial
  | cons extra _ => exact .throw rfl

theorem callWith_alike (callee : String) (arguments : List Expr) (span span' : Span)
    {check check' : List NumType → Checking (List Typed.Expr)}
    (hcheck : ∀ types, RunsAlike (Checker.Coupled K) (fun a b => b = Typed.relocatedExprs φ a)
      (check types) (check' types)) :
    RunsAlike (Checker.Coupled K) (fun a b => b = (Typed.relocatedExprs φ a.1, a.2))
      (callWith callee arguments span check)
      (callWith callee (relocatedExprs φ arguments) span' check') := by
  unfold callWith
  refine .bind (signatureOf_alike callee span span') fun signature signature' hs => ?_
  rw [hs.1]
  refine .bind (checkArity_alike _ _ _ _ _) fun _ _ _ => .bind (hcheck _) ?_
  rintro typed _ rfl
  exact .pure rfl

theorem callResult_alike {callee : String} (hK : K callee) (span span' : Span) :
    RunsAlike (Checker.Coupled K) (fun a b => b = a) (callResult callee span)
      (callResult callee span') := by
  unfold callResult
  refine .bind (signatureOf_alike callee span span') fun signature signature' hs => ?_
  have hagrees := hs.2 hK
  refine .ite (by rw [hagrees.known]) ?_ ?_
  · rw [hagrees.result]
    cases signature.result with
    | none => exact .throw rfl
    | some type => exact .pure rfl
  · rw [hagrees.result]
    exact .bind (report_alike _ _) fun _ _ _ =>
      .bind (setSignature_alike _ (hagrees.fixed _)) fun _ _ _ => .pure rfl

theorem binaryTypes_alike (op : BinaryOp) (left right : NumType) (span span' : Span) :
    RunsAlike (Checker.Coupled K) (fun a b => b = a) (binaryTypes op left right span)
      (binaryTypes op left right span') := by
  unfold binaryTypes
  exact .ite Iff.rfl (.pure rfl) (.ite Iff.rfl (.throw rfl) (.pure rfl))

/-- The last steps of a binary expression, when its operands have been checked. -/
theorem binaryEnd_alike (op : BinaryOp) (first second : Typed.Expr) (span : Span) :
    RunsAlike (Checker.Coupled K) (fun a b => b = Typed.Expr.relocated φ a)
      (do
        let (operandType, type) ← binaryTypes op first.type second.type span
        return Typed.Expr.binary op first second operandType type span)
      (do
        let (operandType, type) ← binaryTypes op (first.relocated φ).type second.type (φ span)
        return Typed.Expr.binary op (first.relocated φ) (second.relocated φ) operandType type
          (φ span)) := by
  rw [Typed.Expr.type_relocated]
  refine .bind (binaryTypes_alike _ _ _ _ _) ?_
  rintro _ types rfl
  exact .pure rfl

mutual

theorem checkExpr_alike (e : Expr) (hint : Option NumType) (hK : ∀ name ∈ e.usedCalls, K name) :
    RunsAlike (Checker.Coupled K) (fun a b => b = a.relocated φ) (checkExpr e hint)
      (checkExpr (e.relocated φ) hint) := by
  match e with
  | .literal value span => exact .pure rfl
  | .var name span =>
    simp only [Expr.relocated, checkExpr]
    refine .bind (variableOf_alike name _ _) ?_
    rintro _ v rfl
    refine .bind (readType_alike _ _) ?_
    rintro _ type rfl
    exact .pure rfl
  | .update op target targetSpan span =>
    simp only [Expr.relocated, checkExpr]
    refine .bind (variableOf_alike target _ _) ?_
    rintro _ v rfl
    refine .bind (readType_alike _ _) ?_
    rintro _ type rfl
    exact .pure rfl
  | .unary op operand span =>
    simp only [Expr.relocated, checkExpr]
    refine .bind (checkExpr_alike operand _ hK) ?_
    rintro typed _ rfl
    rw [Typed.Expr.type_relocated]
    exact .pure rfl
  | .assign target value span =>
    simp only [Expr.relocated, checkExpr]
    refine .bind (assignTo_alike target fun hint => checkExpr_alike value hint hK) ?_
    rintro ⟨slot, typed, type⟩ _ rfl
    refine .bind (readType_alike _ _) ?_
    rintro _ read rfl
    exact .pure rfl
  | .convert operand source target span =>
    simp only [Expr.relocated, checkExpr]
    refine .bind (checkExpr_alike operand _ hK) ?_
    rintro typed _ rfl
    rw [Typed.Expr.type_relocated]
    cases source with
    | none => exact .pure rfl
    | some declared =>
      exact .ite Iff.rfl (.bind (report_alike _ _) fun _ _ _ => .pure rfl) (.pure rfl)
  | .call callee arguments span =>
    simp only [Expr.relocated, checkExpr]
    have hK' := List.forall_mem_cons.mp hK
    refine .bind (callWith_alike callee arguments _ _ fun types =>
      checkArguments_alike callee arguments types hK'.2) ?_
    rintro ⟨typed, types⟩ _ rfl
    refine .bind (callResult_alike hK'.1 _ _) ?_
    rintro _ type rfl
    exact .pure rfl
  | .binary op left right span =>
    simp only [Expr.relocated, checkExpr]
    have hK' := List.forall_mem_append.mp hK
    refine .bind (checkExpr_alike left _ hK'.1) ?_
    rintro first _ rfl
    rw [Typed.Expr.type_relocated]
    refine .bind (checkExpr_alike right _ hK'.2) ?_
    rintro second _ rfl
    rw [Typed.Expr.type_relocated, Expr.isConstant_relocated]
    refine .ite Iff.rfl ?_ ?_
    · refine .bind (checkExpr_alike left _ hK'.1) ?_
      rintro first _ rfl
      exact binaryEnd_alike op first second span
    · exact binaryEnd_alike op first second span

theorem checkArguments_alike (callee : String) (arguments : List Expr) (types : List NumType)
    (hK : ∀ name ∈ usedCallsOfExprs arguments, K name) :
    RunsAlike (Checker.Coupled K) (fun a b => b = Typed.relocatedExprs φ a)
      (checkArguments callee arguments types)
      (checkArguments callee (relocatedExprs φ arguments) types) := by
  match arguments, types with
  | [], types => exact .pure rfl
  | _ :: _, [] => exact .pure rfl
  | argument :: arguments, parameter :: parameters =>
    simp only [relocatedExprs, checkArguments]
    have hK' := List.forall_mem_append.mp hK
    refine .bind (checkExpr_alike argument _ hK'.1) ?_
    rintro typed _ rfl
    rw [Typed.Expr.type_relocated]
    refine .ite Iff.rfl (.throw rfl) (.bind (checkArguments_alike callee arguments _ hK'.2) ?_)
    rintro typeds _ rfl
    exact .pure rfl

end

end Expressions

end Checking
end Numlet
