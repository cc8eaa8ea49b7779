import Numlet.Proofs.Code.Layout

/-!
The lines of code that call a function or drop a value. A call line stands right behind the code of its
arguments, with a drop behind it if the call is a statement whose callee has a result. The only other drops
stand behind expressions whose value nothing uses. In the code of a tree these are all such lines, in the
order in which the tree has them.
-/
namespace Numlet

/-- A line that calls a function or drops a value. -/
@[simp] def Instr.callsOrDrops : Instr → Bool
  | .call _ | .drop => true
  | _ => false

namespace Typed

/-- A call with the types that its arguments are turned into. The value of a call in an expression is used
at a type; a call that stands by itself, as that of a print does, has no use for one. -/
structure CallSite where
  callee : String
  arguments : List Expr
  parameterTypes : List NumType
  valueType : Option NumType

namespace CallSite

/-- The name in the call line. -/
def target (site : CallSite) : String := Host.resolve site.callee

/-- The lines before the call. -/
def argumentCode (c : Context) (site : CallSite) : List Instr :=
  Node.flatten (c.argumentNodes site.arguments site.parameterTypes)

/-- The lines after the call. -/
def dropCode (c : Context) (site : CallSite) : List Instr :=
  if site.valueType.isNone && (c.resultOf site.callee).isSome then [.drop] else []

end CallSite

def Expr.callSite? : Expr → Option CallSite
  | .call callee arguments parameterTypes _ type _ => some ⟨callee, arguments, parameterTypes, some type⟩
  | _ => none

def Stmt.callSite? : Stmt → Option CallSite
  | .print value _ => some ⟨(Host.print value.type).name, [value], [value.type], none⟩
  | .call callee arguments parameterTypes _ => some ⟨callee, arguments, parameterTypes, none⟩
  | _ => none

/-- The calls in expressions. -/
def sitesOf (parts : List Expr) : List CallSite := parts.filterMap Expr.callSite?

/-- The calls that stand as statements. -/
def stmtSitesOf (parts : List Stmt) : List CallSite := parts.filterMap Stmt.callSite?

@[simp] theorem sitesOf_nil : sitesOf [] = [] := rfl

@[simp] theorem sitesOf_append (xs ys : List Expr) : sitesOf (xs ++ ys) = sitesOf xs ++ sitesOf ys :=
  List.filterMap_append

@[simp] theorem sitesOf_singleton (x : Expr) : sitesOf [x] = x.callSite?.toList := by
  cases h : x.callSite? <;> simp [sitesOf, h]

@[simp] theorem stmtSitesOf_nil : stmtSitesOf [] = [] := rfl

@[simp] theorem stmtSitesOf_append (xs ys : List Stmt) :
    stmtSitesOf (xs ++ ys) = stmtSitesOf xs ++ stmtSitesOf ys :=
  List.filterMap_append

@[simp] theorem stmtSitesOf_singleton (x : Stmt) : stmtSitesOf [x] = x.callSite?.toList := by
  cases h : x.callSite? <;> simp [stmtSitesOf, h]

/-- What leaves lines that call or drop: a call, or an expression that stands as a statement, so that
nothing uses its value. -/
inductive Occurrence
  | call (site : CallSite)
  | unused (value : Expr)

namespace Occurrence

def site? : Occurrence → Option CallSite
  | call site => some site
  | unused _ => none

/-- The lines of the operands. -/
def operandCode (c : Context) : Occurrence → List Instr
  | call site => site.argumentCode c
  | unused value => Node.flatten (c.exprNodes value)

/-- The lines that it adds to those of its operands. -/
def lines (c : Context) : Occurrence → List Instr
  | call site => .call site.target :: site.dropCode c
  | unused _ => [.drop]

def code (c : Context) (o : Occurrence) : List Instr := o.operandCode c ++ o.lines c

theorem code_call (c : Context) (site : CallSite) : (call site).code c =
    Node.flatten (c.argumentNodes site.arguments site.parameterTypes) ++ .call (Host.resolve site.callee) ::
      if site.valueType.isNone && (c.resultOf site.callee).isSome then [.drop] else [] := rfl

theorem code_unused (c : Context) (value : Expr) :
    (unused value).code c = Node.flatten (c.exprNodes value) ++ [.drop] := rfl

theorem filter_lines (c : Context) (o : Occurrence) :
    (o.lines c).filter Instr.callsOrDrops = o.lines c := by
  cases o with
  | call site =>
    rw [lines, CallSite.dropCode]
    split <;> rfl
  | unused value => rfl

theorem call_mem_lines {c : Context} {o : Occurrence} {target : String} :
    .call target ∈ o.lines c ↔ ∃ site, o = .call site ∧ site.target = target := by
  cases o with
  | call site =>
    rw [lines, CallSite.dropCode]
    split <;> simp [eq_comm (a := target)]
  | unused value => simp [lines]

end Occurrence

/-- The calls in expressions, in the order in which the expressions take effect. -/
def callsIn (parts : List Expr) : List Occurrence := (sitesOf parts).map .call

@[simp] theorem callsIn_nil : callsIn [] = [] := rfl

@[simp] theorem callsIn_append (xs ys : List Expr) : callsIn (xs ++ ys) = callsIn xs ++ callsIn ys := by
  simp [callsIn]

@[simp] theorem callsIn_singleton (x : Expr) : callsIn [x] = x.callSite?.toList.map .call := by
  simp [callsIn]

@[simp] theorem call_mem_callsIn {site : CallSite} {parts : List Expr} :
    .call site ∈ callsIn parts ↔ site ∈ sitesOf parts := by
  simp [callsIn]

mutual

/-- The calls and the unused expressions of a statement, in the order in which they take effect. -/
def Stmt.occurrences : Stmt → List Occurrence
  | .declare _ value _ _ | .returnValue value _ => callsIn (partsOfExpr? value)
  | .assign _ value _ => callsIn value.parts
  | .branch condition yes no _ => callsIn condition.parts ++ yes.occurrences ++ occurrencesOfStmt? no
  | .loop start condition body step _ =>
    occurrencesOfStmt? start ++ callsIn (partsOfExpr? condition) ++ body.occurrences ++
      occurrencesOfStmt? step
  | .breakLoop _ | .continueLoop _ => []
  | .print value _ =>
    callsIn value.parts ++ [.call ⟨(Host.print value.type).name, [value], [value.type], none⟩]
  | .block body _ => occurrencesOfStmts body
  | .expression value => callsIn value.parts ++ [.unused value]
  | .call callee arguments parameterTypes _ =>
    callsIn (partsOfExprs arguments) ++ [.call ⟨callee, arguments, parameterTypes, none⟩]

def occurrencesOfStmt? : Option Stmt → List Occurrence
  | none => []
  | some s => s.occurrences

def occurrencesOfStmts : List Stmt → List Occurrence
  | [] => []
  | s :: ss => s.occurrences ++ occurrencesOfStmts ss

end

mutual

/-- The calls of a statement are those in its expressions and those that are statements. -/
theorem Stmt.call_mem_occurrences (s : Stmt) (site : CallSite) :
    .call site ∈ s.occurrences ↔ site ∈ sitesOf s.exprs ∨ site ∈ stmtSitesOf s.parts := by
  match s with
  | .declare .. | .assign .. | .breakLoop _ | .continueLoop _ | .returnValue .. | .print ..
  | .expression _ | .call .. => simp [Stmt.occurrences, Stmt.exprs, Stmt.parts, Stmt.callSite?]
  | .branch condition yes no span =>
    have hyes := yes.call_mem_occurrences site
    have hno := call_mem_occurrencesOfStmt? no site
    simp only [Stmt.occurrences, Stmt.exprs, Stmt.parts, List.mem_append, sitesOf_append, stmtSitesOf_append,
      call_mem_callsIn, hyes, hno, stmtSitesOf_singleton, Stmt.callSite?]
    grind
  | .loop start condition body step span =>
    have hstart := call_mem_occurrencesOfStmt? start site
    have hbody := body.call_mem_occurrences site
    have hstep := call_mem_occurrencesOfStmt? step site
    simp only [Stmt.occurrences, Stmt.exprs, Stmt.parts, List.mem_append, sitesOf_append, stmtSitesOf_append,
      call_mem_callsIn, hstart, hbody, hstep, stmtSitesOf_singleton, Stmt.callSite?]
    grind
  | .block body span =>
    have hbody := call_mem_occurrencesOfStmts body site
    simpa [Stmt.occurrences, Stmt.exprs, Stmt.parts, Stmt.callSite?] using hbody

theorem call_mem_occurrencesOfStmt? (s : Option Stmt) (site : CallSite) :
    .call site ∈ occurrencesOfStmt? s ↔
      site ∈ sitesOf (exprsOfStmt? s) ∨ site ∈ stmtSitesOf (partsOfStmt? s) := by
  match s with
  | none => simp [occurrencesOfStmt?, exprsOfStmt?, partsOfStmt?]
  | some s => exact s.call_mem_occurrences site

theorem call_mem_occurrencesOfStmts (ss : List Stmt) (site : CallSite) :
    .call site ∈ occurrencesOfStmts ss ↔
      site ∈ sitesOf (exprsOfStmts ss) ∨ site ∈ stmtSitesOf (partsOfStmts ss) := by
  match ss with
  | [] => simp [occurrencesOfStmts, exprsOfStmts, partsOfStmts]
  | s :: ss =>
    have hfirst := s.call_mem_occurrences site
    have hrest := call_mem_occurrencesOfStmts ss site
    simp only [occurrencesOfStmts, exprsOfStmts, partsOfStmts, List.mem_append, sitesOf_append,
      stmtSitesOf_append, hfirst, hrest]
    grind

end

namespace Function

def occurrences (f : Function) : List Occurrence := occurrencesOfStmts f.body

/-- The places from which a function calls others. -/
def callSites (f : Function) : List CallSite := f.occurrences.filterMap Occurrence.site?

theorem call_mem_occurrences {f : Function} {site : CallSite} :
    .call site ∈ f.occurrences ↔ site ∈ f.callSites := by
  unfold callSites
  rw [List.mem_filterMap]
  constructor
  · exact fun h => ⟨_, h, rfl⟩
  · rintro ⟨o, ho, hsite⟩
    cases o with
    | call inner =>
      cases hsite
      exact ho
    | unused value => cases hsite

theorem mem_callSites {f : Function} {site : CallSite} :
    site ∈ f.callSites ↔ site ∈ sitesOf (exprsOfStmts f.body) ∨ site ∈ stmtSitesOf (partsOfStmts f.body) := by
  rw [← call_mem_occurrences]
  exact call_mem_occurrencesOfStmts f.body site

end Function

/-- Code whose lines that call or drop are left by the occurrences, in their order. Each occurrence has its
own lines right behind those of its operands, and no line but these calls or drops. -/
inductive Context.Calls (c : Context) : List Instr → List Occurrence → Prop
  | nil : c.Calls [] []
  | line {i : Instr} (h : i.callsOrDrops = false) : c.Calls [i] []
  | append {xs ys : List Instr} {S T : List Occurrence} (h₁ : c.Calls xs S) (h₂ : c.Calls ys T) :
      c.Calls (xs ++ ys) (S ++ T)
  | occurrence {S : List Occurrence} (o : Occurrence) (h : c.Calls (o.operandCode c) S) :
      c.Calls (o.code c) (S ++ [o])

namespace Context.Calls

variable {c : Context} {code xs ys : List Instr} {S T : List Occurrence}

/-- The lines that call or drop, one after the other. -/
theorem filter_eq (h : c.Calls code S) :
    code.filter Instr.callsOrDrops = S.flatMap (·.lines c) := by
  induction h with
  | nil => rfl
  | line h => exact List.filter_cons_of_neg (ne_true_of_eq_false h)
  | append _ _ ih₁ ih₂ => rw [List.filter_append, ih₁, ih₂, List.flatMap_append]
  | occurrence o _ ih =>
    rw [Occurrence.code, List.filter_append, ih, o.filter_lines, List.flatMap_append, List.flatMap_singleton]

theorem call_mem_iff (h : c.Calls code S) {target : String} :
    .call target ∈ code ↔ ∃ site, .call site ∈ S ∧ site.target = target := by
  have hmem : .call target ∈ code ↔ .call target ∈ code.filter Instr.callsOrDrops := by simp
  rw [hmem, h.filter_eq, List.mem_flatMap]
  simp only [Occurrence.call_mem_lines]
  constructor
  · rintro ⟨_, hin, site, rfl, htarget⟩
    exact ⟨site, hin, htarget⟩
  · rintro ⟨site, hin, htarget⟩
    exact ⟨_, hin, site, rfl, htarget⟩

theorem quiet (h : ∀ i ∈ code, i.callsOrDrops = false) : c.Calls code [] := by
  induction code with
  | nil => exact .nil
  | cons i code ih =>
    obtain ⟨hi, hcode⟩ := List.forall_mem_cons.mp h
    exact .append (.line hi) (ih hcode)

/-- The same code and the same occurrences in other words. -/
theorem congr (h : c.Calls xs S) (hcode : xs = ys) (hS : S = T) : c.Calls ys T := by
  rwa [← hcode, ← hS]

/-- Code between an opening and an end. -/
theorem around (first last : Instr) (hfirst : first.callsOrDrops = false)
    (hlast : last.callsOrDrops = false) (h : c.Calls code S) :
    c.Calls (first :: (code ++ [last])) S :=
  ((line hfirst).append (h.append (line hlast))).congr rfl (List.append_nil S)

end Context.Calls

/-- Nodes that call and drop nothing. -/
def Quiet (ns : List Node) : Prop := ∀ i ∈ Node.flatten ns, i.callsOrDrops = false

theorem quiet_coerceNodes (source target : NumType) : Quiet (coerceNodes source target) := by
  unfold coerceNodes
  split
  · simp [Quiet]
  · split <;> simp [Quiet, Node.flat]

theorem quiet_truthNodes (t : NumType) : Quiet (truthNodes t) := by simp [Quiet, truthNodes, Node.flat]

theorem quiet_conditionNodes (t : NumType) : Quiet (conditionNodes t) := by
  unfold conditionNodes
  split
  · simp [Quiet]
  · exact quiet_truthNodes t

theorem quiet_unaryNodes (op : UnaryOp) (t : NumType) : Quiet (unaryNodes op t) := by
  cases op with
  | plus | negate => simp [Quiet, unaryNodes, Node.flat]
  | not =>
    unfold unaryNodes
    cases t.isInteger <;> simp [Quiet, Node.flat]

theorem quiet_numericNodes (op : BinaryOp) (t : NumType) : Quiet (numericNodes op t) := by
  unfold numericNodes
  split <;> simp [Quiet, Node.flat]

namespace Context

variable (c : Context)

theorem quiet_loadNodes (x : String) (t : NumType) : Quiet (c.loadNodes x t) := by
  have h := quiet_coerceNodes (c.slotType x) t
  simpa [Quiet, loadNodes, Node.flat] using h

theorem quiet_storeNodes (x : String) (t : NumType) : Quiet (c.storeNodes x t) := by
  have h := quiet_coerceNodes t (c.slotType x)
  simp only [Quiet, storeNodes, Node.flatten_append, List.forall_mem_append]
  exact ⟨h, by simp [Node.flat]⟩

theorem quiet_updateNodes (op : UpdateOp) (x : String) (t : NumType) : Quiet (c.updateNodes op x t) := by
  have hload := c.quiet_loadNodes x t
  have hstore := c.quiet_storeNodes x t
  simp only [Quiet, updateNodes, Node.flatten_append, List.forall_mem_append]
  exact ⟨⟨⟨hload, hload⟩, by simp [Node.flat]⟩, hstore⟩

mutual

/-- The calls in the code of a sound expression are those of its parts. -/
theorem exprNodes_calls (e : Expr) (he : c.Sound e) :
    c.Calls (Node.flatten (c.exprNodes e)) (callsIn e.parts) := by
  match e with
  | .literal value t span =>
    rw [exprNodes]
    exact .quiet (by simp [Node.flat])
  | .var x t span =>
    rw [exprNodes]
    exact .quiet (c.quiet_loadNodes x t)
  | .update op x t span =>
    rw [exprNodes]
    exact .quiet (c.quiet_updateNodes op x t)
  | .unary op operand t span =>
    refine ((exprNodes_calls operand he.unary.1).append
      (.quiet (quiet_unaryNodes op operand.type))).congr ?_ ?_
    · simp [exprNodes]
    · simp [Expr.parts, Expr.callSite?]
  | .convert operand source target t span =>
    refine ((exprNodes_calls operand he.convert.1).append
      (.quiet (quiet_coerceNodes source target))).congr ?_ ?_
    · simp [exprNodes]
    · simp [Expr.parts, Expr.callSite?]
  | .assign x value t span =>
    refine (((exprNodes_calls value he.assign.1).append (.quiet (c.quiet_storeNodes x value.type))).append
      (.quiet (c.quiet_loadNodes x t))).congr ?_ ?_
    · simp [exprNodes]
    · simp [Expr.parts, Expr.callSite?]
  | .call callee arguments types callSpan t span =>
    obtain ⟨hargs, -, hfits⟩ := he.call
    refine (Calls.occurrence (.call ⟨callee, arguments, types, some t⟩)
      (argumentNodes_calls arguments types hargs hfits)).congr ?_ ?_
    · simp [exprNodes, Occurrence.code_call, callNodes, Node.flat]
    · simp [Expr.parts, Expr.callSite?]
  | .binary op l r ot t span =>
    obtain ⟨hl, hr, -⟩ := he.binary
    have hleft := exprNodes_calls l hl
    have hright := exprNodes_calls r hr
    have htest := hleft.append (.quiet (quiet_conditionNodes l.type))
    have htruth := hright.append (.quiet (quiet_truthNodes r.type))
    have hconst : ∀ n, c.Calls [Instr.const .i32 (.int n)] [] := fun n => .quiet (by simp)
    have helse : c.Calls [Instr.orElse] [] := .quiet (by simp)
    by_cases hand : op = .and
    · refine (htest.append (.around (.ifValue .i32) .finish rfl rfl
        (htruth.append (helse.append (hconst 0))))).congr ?_ ?_
      · simp [exprNodes, hand, Node.flat, Node.flattenElse, Node.opening]
      · simp [Expr.parts, Expr.callSite?]
    · by_cases hor : op = .or
      · refine (htest.append (.around (.ifValue .i32) .finish rfl rfl
          ((hconst 1).append (helse.append htruth)))).congr ?_ ?_
        · simp [exprNodes, hor, Node.flat, Node.flattenElse, Node.opening]
        · simp [Expr.parts, Expr.callSite?]
      · refine ((((hleft.append (.quiet (quiet_coerceNodes l.type ot))).append hright).append
          (.quiet (quiet_coerceNodes r.type ot))).append (.quiet (quiet_numericNodes op ot))).congr ?_ ?_
        · simp [exprNodes, hand, hor]
        · simp [Expr.parts, Expr.callSite?]

theorem argumentNodes_calls (es : List Expr) (types : List NumType)
    (he : ∀ x ∈ partsOfExprs es, c.ExprOk x) (hfits : Fits es types) :
    c.Calls (Node.flatten (c.argumentNodes es types)) (callsIn (partsOfExprs es)) := by
  match es, types, hfits with
  | [], [], _ => exact .quiet (by simp [argumentNodes])
  | e :: es, type :: types, .cons _ hfits =>
    rw [partsOfExprs, List.forall_mem_append] at he
    refine (((exprNodes_calls e he.1).append (.quiet (quiet_coerceNodes e.type type))).append
      (argumentNodes_calls es types he.2 hfits)).congr ?_ ?_
    · simp [argumentNodes]
    · simp [partsOfExprs]

end

theorem testNodes_calls (label : Nat) (e : Option Expr) (he : ∀ x ∈ partsOfExpr? e, c.ExprOk x) :
    c.Calls (Node.flatten (c.testNodes label e)) (callsIn (partsOfExpr? e)) := by
  cases e with
  | none => exact .quiet (by simp [testNodes])
  | some e =>
    have hleave : c.Calls [Instr.eqz .i32, .brIf (.exit label)] [] := .quiet (by simp)
    refine (((c.exprNodes_calls e he).append (.quiet (quiet_conditionNodes e.type))).append
      hleave).congr ?_ ?_
    · simp [testNodes, Node.flat]
    · simp [partsOfExpr?]

theorem declareNodes_calls (x : String) (t : NumType) (e : Option Expr)
    (he : ∀ x ∈ partsOfExpr? e, c.ExprOk x) :
    c.Calls (Node.flatten (c.declareNodes x t e)) (callsIn (partsOfExpr? e)) := by
  cases e with
  | none =>
    have hzero : c.Calls [Instr.const t (.int 0)] [] := .quiet (by simp)
    refine (hzero.append (.quiet (c.quiet_storeNodes x t))).congr ?_ ?_
    · simp [declareNodes, Node.flat]
    · simp [partsOfExpr?]
  | some value =>
    refine ((c.exprNodes_calls value he).append (.quiet (c.quiet_storeNodes x value.type))).congr ?_ ?_
    · simp [declareNodes]
    · simp [partsOfExpr?]

theorem returnNodes_calls (e : Option Expr) (he : ∀ x ∈ partsOfExpr? e, c.ExprOk x) :
    c.Calls (Node.flatten (c.returnNodes e)) (callsIn (partsOfExpr? e)) := by
  have hret : c.Calls [Instr.ret] [] := .quiet (by simp)
  cases e with
  | none => exact hret.congr (by simp [returnNodes, Node.flat]) (by simp [partsOfExpr?])
  | some value =>
    have hturned : Quiet ((c.result.map (coerceNodes value.type)).getD []) := by
      cases c.result with
      | none => simp [Quiet]
      | some t => exact quiet_coerceNodes value.type t
    refine (((c.exprNodes_calls value he).append (.quiet hturned)).append hret).congr ?_ ?_
    · simp [returnNodes, Node.flat]
    · simp [partsOfExpr?]

variable {c}

mutual

/-- The calls in the code of a sound statement are those of its expressions and of its statements. -/
theorem stmtNodes_calls (hprint : ∀ t, c.resultOf (Host.print t).name = none) (s : Stmt) {inLoop : Bool}
    (h : c.SoundStmt inLoop s) (inner next : Nat) :
    c.Calls (Node.flatten (c.stmtNodes inner next s)) s.occurrences := by
  match s with
  | .declare x value t span =>
    refine (c.declareNodes_calls x t value h.exprs).congr ?_ ?_
    · simp [stmtNodes]
    · simp [Stmt.occurrences]
  | .assign x value span =>
    refine ((c.exprNodes_calls value h.exprs).append (.quiet (c.quiet_storeNodes x value.type))).congr ?_ ?_
    · simp [stmtNodes]
    · simp [Stmt.occurrences]
  | .branch condition yes no span =>
    obtain ⟨he, hyes, hno⟩ := h.branch
    refine (((c.exprNodes_calls condition he).append (.quiet (quiet_conditionNodes condition.type))).append
      (.around .ifThen .finish rfl rfl
        ((stmtNodes_calls hprint yes hyes inner next).append
          (elseNodes_calls hprint no hno inner (next + yes.loopCount))))).congr ?_ ?_
    · simp [stmtNodes, Node.flat, Node.opening]
    · simp [Stmt.occurrences]
  | .loop start condition body step span =>
    obtain ⟨hstart, hcond, hbody, hstep⟩ := h.loop
    let label := next + loopCount? start
    have hback : c.Calls [Instr.br (.head label)] [] := .quiet (by simp)
    have hinside := (c.testNodes_calls label condition hcond).append
      ((Calls.around (.block (.next label)) .finish rfl rfl
        (stmtNodes_calls hprint body hbody label (label + 1))).append
        ((stmtNodes?_calls hprint step hstep inner (label + 1 + body.loopCount)).append hback))
    refine ((stmtNodes?_calls hprint start hstart inner next).append
      (.around (.block (.exit label)) .finish rfl rfl
        (.around (.loop (.head label)) .finish rfl rfl hinside))).congr ?_ ?_
    · simp [stmtNodes, Node.flat, label]
    · simp [Stmt.occurrences]
  | .breakLoop span =>
    have hjump : c.Calls [Instr.br (.exit inner)] [] := .quiet (by simp)
    refine hjump.congr ?_ ?_
    · simp [stmtNodes, Node.flat]
    · simp [Stmt.occurrences]
  | .continueLoop span =>
    have hjump : c.Calls [Instr.br (.next inner)] [] := .quiet (by simp)
    refine hjump.congr ?_ ?_
    · simp [stmtNodes, Node.flat]
    · simp [Stmt.occurrences]
  | .returnValue value span =>
    refine (c.returnNodes_calls value h.exprs).congr ?_ ?_
    · simp [stmtNodes]
    · simp [Stmt.occurrences]
  | .print value span =>
    -- A print has one argument, of the parameter's own type, and its callee has no result.
    have hargument : Node.flatten (c.argumentNodes [value] [value.type]) =
        Node.flatten (c.exprNodes value) := by
      simp [argumentNodes, coerceNodes]
    refine (Calls.occurrence (.call ⟨(Host.print value.type).name, [value], [value.type], none⟩)
      ((c.exprNodes_calls value h.exprs).congr hargument.symm rfl)).congr ?_ ?_
    · simp [stmtNodes, Occurrence.code_call, hargument, hprint, callNodes, Node.flat]
    · simp [Stmt.occurrences]
  | .block body span =>
    refine (stmtsNodes_calls hprint body h.block inner next).congr ?_ ?_
    · simp [stmtNodes]
    · simp [Stmt.occurrences]
  | .expression value =>
    refine (Calls.occurrence (.unused value) (c.exprNodes_calls value h.exprs)).congr ?_ ?_
    · simp [stmtNodes, Occurrence.code_unused, Node.flat]
    · simp [Stmt.occurrences]
  | .call callee arguments types span =>
    obtain ⟨-, hfits⟩ := h.self
    refine (Calls.occurrence (.call ⟨callee, arguments, types, none⟩)
      (c.argumentNodes_calls arguments types h.exprs hfits)).congr ?_ ?_
    · cases hr : (c.resultOf callee).isSome <;>
        simp [stmtNodes, Occurrence.code_call, callNodes, Node.flat, hr]
    · simp [Stmt.occurrences]

theorem stmtNodes?_calls (hprint : ∀ t, c.resultOf (Host.print t).name = none) (s : Option Stmt)
    {inLoop : Bool} (h : c.SoundStmt? inLoop s) (inner next : Nat) :
    c.Calls (Node.flatten (c.stmtNodes? inner next s)) (occurrencesOfStmt? s) := by
  match s with
  | none => exact .quiet (by simp [stmtNodes?])
  | some s =>
    refine (stmtNodes_calls hprint s h.some inner next).congr ?_ ?_
    · simp [stmtNodes?]
    · simp [occurrencesOfStmt?]

theorem elseNodes_calls (hprint : ∀ t, c.resultOf (Host.print t).name = none) (s : Option Stmt)
    {inLoop : Bool} (h : c.SoundStmt? inLoop s) (inner next : Nat) :
    c.Calls (Node.flattenElse (c.elseNodes inner next s)) (occurrencesOfStmt? s) := by
  match s with
  | none => exact .quiet (by simp [elseNodes, Node.flattenElse])
  | some s =>
    by_cases hempty : s.isEmptyBlock = true
    · obtain ⟨span, rfl⟩ := Stmt.isEmptyBlock_iff.mp hempty
      exact .quiet (by simp [elseNodes, hempty, Node.flattenElse])
    · have helse : c.Calls [Instr.orElse] [] := .quiet (by simp)
      refine (helse.append (stmtNodes_calls hprint s h.some inner next)).congr ?_ ?_
      · simp [elseNodes, hempty, Node.flattenElse]
      · simp [occurrencesOfStmt?]

theorem stmtsNodes_calls (hprint : ∀ t, c.resultOf (Host.print t).name = none) (ss : List Stmt)
    {inLoop : Bool} (h : c.SoundStmts inLoop ss) (inner next : Nat) :
    c.Calls (Node.flatten (c.stmtsNodes inner next ss)) (occurrencesOfStmts ss) := by
  match ss with
  | [] => exact .quiet (by simp [stmtsNodes])
  | s :: ss =>
    obtain ⟨hfirst, hrest⟩ := h.cons
    refine ((stmtNodes_calls hprint s hfirst inner next).append
      (stmtsNodes_calls hprint ss hrest inner (next + s.loopCount))).congr ?_ ?_
    · simp [stmtsNodes]
    · simp [occurrencesOfStmts]

end

end Context

/-- The calls in the code of a function are those of its body. -/
theorem Function.code_calls {f : Function} {p : Program} (h : (f.context p).SoundStmts false f.body) :
    (f.context p).Calls (Node.flatten (f.nodes p)) f.occurrences := by
  have hprint : ∀ t, (f.context p).resultOf (Host.print t).name = none := by
    intro t
    cases t <;> rfl
  have hend : Quiet f.endNodes := by
    unfold endNodes
    split <;> simp [Quiet, Node.flat]
  refine ((Context.stmtsNodes_calls hprint f.body h 0 0).append (.quiet hend)).congr ?_ ?_
  · simp [nodes]
  · simp [occurrences]

end Typed

end Numlet
