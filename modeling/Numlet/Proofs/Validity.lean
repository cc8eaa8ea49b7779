import Numlet.Proofs.CallAgreement
import Numlet.Proofs.Code.Forced
import Numlet.Proofs.Code.Linking
import Numlet.Proofs.Code.Places
import Numlet.Proofs.Emission

/-!
The code of a module is well typed. The one exception is a program in which the result of a function
without locals has outgrown a pin: there the value of a return has a call of another type than the code
takes it for.
-/
namespace Numlet

/-- A whole number gets a type that it fits in. -/
theorem Literal.fitsIn_typeFor {value : Literal} (h : value.InRange) (hint : Option NumType) :
    value.FitsIn (value.typeFor hint) := by
  cases value with
  | int n =>
    simp only [typeFor, NumType.forInteger]
    split
    · next hsmall =>
      split
      · exact h
      · exact hsmall
    · split <;> exact h
  | fraction x =>
    simp only [typeFor, NumType.forFraction]
    split <;> trivial

section Program

variable {p : Program} {options : Options} {typed : Typed.Program} {z : Checker}

/-- A checked body has the literals of its source. -/
theorem BodySource.literals_eq {f : Typed.Function} {body : List Stmt} (h : BodySource p f body) :
    (Typed.exprsOfStmts f.body).filterMap Typed.Expr.literal? = literalsOfStmts body := by
  obtain ⟨⟨scope, s, s', hp, -, -⟩, -, -, -⟩ := h
  obtain ⟨readTypes, s₀, s₁, number, ⟨hrun⟩, -, -, rfl⟩ :=
    hp.final (P := fun _ => True) (fun _ _ _ _ _ _ => trivial) trivial
  exact hrun.leaves.literals

/-- The literals of a checked program are those of its source. -/
theorem ProgramRun.literal_mem (h : ProgramRun p options typed z) {f : Typed.Function}
    (hf : f ∈ typed.bodies) {value : Literal} {t : NumType} {span : Span}
    (hx : .literal value t span ∈ Typed.exprsOfStmts f.body) : value ∈ p.literals := by
  obtain ⟨body, hsource⟩ := h.source f hf
  apply hsource.literals
  rw [← hsource.literals_eq, List.mem_filterMap]
  exact ⟨_, hx, rfl⟩

theorem ProgramRun.literal_fits (h : ProgramRun p options typed z)
    (hp : ∀ l ∈ p.literals, l.InRange) {f : Typed.Function} (hf : f ∈ typed.bodies)
    {value : Literal} {t : NumType} {span : Span}
    (hx : .literal value t span ∈ Typed.exprsOfStmts f.body) : value.FitsIn t := by
  obtain ⟨hint, rfl⟩ : ∃ hint, t = value.typeFor hint := (h.sound f hf).exprs _ hx
  exact Literal.fitsIn_typeFor (hp value (h.literal_mem hf hx)) hint

/-- In a program that is lowered every written conversion is possible. -/
theorem ProgramRun.convert_allowed (h : ProgramRun p options typed z) (hspelled : p.Spelled)
    (hr : Coercion.firstRefusal typed.coercions = none) {operand : Typed.Expr}
    {source target t : NumType} {span : Span}
    (hx : .convert operand source target t span ∈ typed.exprs) :
    (source.isFloat && target.isInteger) = false := by
  rw [(h.accounts hspelled).firstRefusal_eq, Coercion.firstRefusal, List.findSome?_eq_none_iff] at hr
  have hnone := hr ⟨source, target, span, true⟩ (List.mem_filterMap.mpr ⟨_, hx, rfl⟩)
  cases hrefused : source.isFloat && target.isInteger with
  | false => rfl
  | true =>
    rw [Coercion.refusal?, Coercion.isRefused, hrefused] at hnone
    cases hnone

end Program

/-- A program that has been read, checked and lowered, with what is known of its module. -/
structure Lowered (p : Program) (options : Options) (typed : Typed.Program) (z : Checker)
    (m : WatModule) : Prop where
  run : ProgramRun p options typed z
  readable : Readable p.names p.literals
  accepted : Coercion.firstRefusal typed.coercions = none
  functions : m.functions = typed.forms options
  imports : m.imports = Host.all.filter fun host => typed.bodies.any (·.hosts.contains host)

namespace Lowered

variable {p : Program} {options : Options} {typed : Typed.Program} {z : Checker} {m : WatModule}
  {f : Typed.Function}

theorem of_ok {source file : String} {z' : Emitter} (hp : Program.ofSource source file = .ok p)
    (hc : p.check options = .ok typed z) (hl : typed.lower options = .ok m z') :
    Lowered p options typed z m := by
  have hrun := ProgramRun.of_check hc
  obtain ⟨haccepted, hfunctions, himports⟩ := Typed.Program.of_lower hrun.lowerable hl
  exact ⟨hrun, Program.readable_of_source hp, haccepted, hfunctions, himports⟩

theorem mem_imports (h : Lowered p options typed z m) {host : Host} :
    host ∈ m.imports ↔ ∃ f ∈ typed.bodies, host ∈ f.hosts := by
  simp [h.imports, host.mem_all]

theorem signature? (h : Lowered p options typed z m) (hf : f ∈ typed.bodies) {callee : String}
    {signature : List NumType × Option NumType} (hs : typed.signature? callee = some signature)
    (hhost : ∀ host, Host.find? callee = some host → host ∈ f.hosts) :
    m.signature? (Host.resolve callee) = some signature :=
  h.run.signature?_resolve h.readable.names h.functions hs
    fun host hfound => h.mem_imports.mpr ⟨f, hf, hhost host hfound⟩

theorem host_mem_of_expr {x : Typed.Expr} {host : Host} (hx : x ∈ Typed.exprsOfStmts f.body)
    (hh : x.host? = some host) : host ∈ f.hosts :=
  List.mem_append_left _ (List.mem_filterMap.mpr ⟨x, hx, hh⟩)

theorem host_mem_of_stmt {x : Typed.Stmt} {host : Host} (hx : x ∈ Typed.partsOfStmts f.body)
    (hh : x.host? = some host) : host ∈ f.hosts :=
  List.mem_append_right _ (List.mem_filterMap.mpr ⟨x, hx, hh⟩)

theorem mem_exprs (hf : f ∈ typed.bodies) {x : Typed.Expr} (hx : x ∈ Typed.exprsOfStmts f.body) :
    x ∈ typed.exprs := List.mem_flatMap.mpr ⟨f, hf, hx⟩

/-- The context of a function in a module, with its storage in the place of its declarations. -/
def storageContext (m : WatModule) (f : Typed.Function) : CodeContext :=
  ⟨f.storage.find?, m.signature?, f.result⟩

/-- Where calls agree with their callees, every expression is as its code needs it. -/
theorem exprTyped (h : Lowered p options typed z m) (ha : typed.CallsAgree) (hf : f ∈ typed.bodies) :
    ∀ x ∈ Typed.exprsOfStmts f.body, (storageContext m f).ExprTyped x := by
  intro x hx
  cases x with
  | literal value t span => exact h.run.literal_fits h.readable.literals hf hx
  | convert operand source target t span =>
    exact h.run.convert_allowed h.readable.names h.accepted (mem_exprs hf hx)
  | call callee arguments types callSpan t span =>
    exact h.signature? hf (ha _ (mem_exprs hf hx)).1 fun host hfound => host_mem_of_expr hx hfound
  | var | binary | unary | update | assign => trivial

theorem stmtTyped (h : Lowered p options typed z m) (hf : f ∈ typed.bodies) :
    ∀ x ∈ Typed.partsOfStmts f.body, (storageContext m f).StmtTyped (f.context typed) x := by
  intro x hx
  cases x with
  | print value span =>
    have hs : typed.signature? (Host.print value.type).name = some ([value.type], none) := by
      unfold Typed.Program.signature?
      cases value.type <;> rfl
    exact h.signature? hf hs fun host hfound => host_mem_of_stmt hx hfound
  | call callee arguments types span =>
    obtain ⟨⟨r, hr⟩, -⟩ := (h.run.sound f hf).stmts _ hx
    have hresult : (f.context typed).resultOf callee = r := by
      unfold Typed.Context.resultOf
      rw [hr]
      rfl
    change m.signature? (Host.resolve callee) = some (types, (f.context typed).resultOf callee)
    rw [hresult]
    exact h.signature? hf hr fun host hfound => host_mem_of_stmt hx hfound
  | declare | assign | branch | loop | breakLoop | continueLoop | returnValue | block | expression =>
    trivial

/-- Whatever the calls of a body have for types, their callees have in the module what they have in the
program. -/
theorem linked (h : Lowered p options typed z m) (hf : f ∈ typed.bodies)
    (exportName : Option String) : ∀ x ∈ Typed.exprsOfStmts f.body,
      ((f.form typed exportName).context m).Linked (f.context typed) x := by
  intro x hx
  cases x with
  | call callee arguments types callSpan t span =>
    obtain ⟨⟨r, hr⟩, -⟩ := (h.run.sound f hf).exprs _ hx
    exact (h.signature? hf hr fun host hfound => host_mem_of_expr hx hfound).trans hr.symm
  | convert operand source target t span =>
    exact h.run.convert_allowed h.readable.names h.accepted (mem_exprs hf hx)
  | literal | var | binary | unary | update | assign => trivial

theorem backs (h : Lowered p options typed z m) (hf : f ∈ typed.bodies) :
    (storageContext m f).Backs (f.context typed) :=
  ⟨fun _ _ hx => h.run.slotType_eq h.readable.names hf hx, fun _ _ hx => hx, rfl⟩

theorem storage_validates (h : Lowered p options typed z m) (ha : typed.CallsAgree)
    (hf : f ∈ typed.bodies) :
    match f.result with
    | none => (storageContext m f).Validates [] (f.nodes typed) [] []
    | some _ => ∀ s, (storageContext m f).Validates [] (f.nodes typed) [] s :=
  CodeContext.nodes_validates (h.backs hf) (h.run.sound f hf) (h.exprTyped ha hf) (h.stmtTyped hf)

/-- The locals in the code of a function are declared with their storage. -/
theorem localType (h : Lowered p options typed z m) (ha : typed.CallsAgree) (hf : f ∈ typed.bodies)
    (exportName : Option String) :
    ∀ i ∈ f.code typed, ∀ x t, i.local? = some x → f.storage.find? x = some t →
      (f.form typed exportName).localType x = some t := by
  have hknown : ∀ i ∈ f.code typed, ∀ x, i.local? = some x → (f.storage.find? x).isSome = true := by
    have hvalid := h.storage_validates ha hf
    cases hr : f.result with
    | none =>
      rw [hr] at hvalid
      exact hvalid.local_known
    | some r =>
      rw [hr] at hvalid
      exact (hvalid []).local_known
  exact fun i hi x t hx ht => h.run.localType_form h.readable.names hf exportName hknown hi hx ht

/-- The form of a function is valid. -/
theorem valid (h : Lowered p options typed z m) (ha : typed.CallsAgree) (hf : f ∈ typed.bodies)
    (exportName : Option String) :
    (f.form typed exportName).Valid m := by
  refine ⟨f.nodes typed, Node.ofInstrs?_flatten _, ?_⟩
  have hvalid := h.storage_validates ha hf
  change match f.result with
    | none => ((f.form typed exportName).context m).Validates [] (f.nodes typed) [] []
    | some _ => ∀ s, ((f.form typed exportName).context m).Validates [] (f.nodes typed) [] s
  cases hr : f.result with
  | none =>
    rw [hr] at hvalid
    exact hvalid.of_locals (h.localType ha hf exportName)
  | some r =>
    rw [hr] at hvalid
    exact fun s => (hvalid s).of_locals (h.localType ha hf exportName)

/-- Every statement of a function has its lines in the form, and they leave the stack as it is. -/
theorem places (h : Lowered p options typed z m) (ha : typed.CallsAgree) (hf : f ∈ typed.bodies)
    (exportName : Option String) :
    ∀ q ∈ f.places typed, Node.flatten q.code <:+: (f.form typed exportName).body ∧
      ((f.form typed exportName).context m).Neutral q := by
  intro q hq
  have hin : Node.flatten q.code <:+: f.code typed :=
    Node.infix_append_left ((f.context typed).placesAll_lines [] 0 0 f.body q hq)
  have hneutral := CodeContext.placesAll_neutral f.body (h.backs hf)
    (h.run.sound f hf) (h.exprTyped ha hf) (h.stmtTyped hf) (fun h => (nomatch h)) q hq
  refine ⟨hin, fun s => (hneutral s).of_locals fun i hi => ?_⟩
  exact h.localType ha hf exportName i (hin.mem hi)

/-- A function without locals whose result has outgrown a pin is not valid. -/
theorem not_valid (h : Lowered p options typed z m) (hf : f ∈ typed.functions)
    (hempty : f.storage.entries = []) {t : NumType} (ht : .resultPinned f.name t ∈ z.log)
    (hne : f.result ≠ some t) (exportName : Option String) :
    ¬ (f.form typed exportName).Valid m := by
  rintro ⟨ns, hns, hvalid⟩
  have hbody : f ∈ typed.bodies := List.mem_append_left _ hf
  have hchecked := h.run.checked f hf
  obtain ⟨value, span, hreturn, x, hx, hcall⟩ := hchecked.outgrown hempty t ht hne
  have hnodes : ns = f.nodes typed := Option.some.inj (hns.symm.trans (Node.ofInstrs?_flatten _))
  have hany : ∃ s, ((f.form typed exportName).context m).Validates [] (f.nodes typed) [] s := by
    rw [← hnodes]
    split at hvalid
    · exact ⟨_, hvalid⟩
    · exact ⟨_, hvalid []⟩
  obtain ⟨s, hs⟩ := hany
  obtain ⟨s₁, hs, -⟩ := hs.of_append
  obtain ⟨labels, s₂, s₃, hcode⟩ :=
    CodeContext.returns_validate_all f.body hs _ hreturn (some value) span rfl
  -- The value is used at the result, so the call in it has the result of its callee.
  have hsub : ∀ y ∈ value.parts, y ∈ Typed.exprsOfStmts f.body :=
    fun y hy => Typed.exprsOfStmts_subset f.body _ hreturn hy
  have hsound := h.run.sound f hbody
  have hfits := CodeContext.returnNodes_forced (Table.entries_eq_nil_iff.mp hempty)
    (fun y hy => hsound.exprs y (hsub y hy)) (hsound.stmts _ hreturn) rfl
    (fun y hy => h.linked hbody exportName y (hsub y hy)) hcode x hx
  cases x with
  | call callee arguments types callSpan type span =>
    obtain ⟨rfl, rfl⟩ := hcall
    obtain ⟨signature, hsig, -, hr⟩ := hchecked.signature
    have hfinal := h.run.signature?_eq hsig
    rw [show typed.signature? f.name = _ from hfits, hr] at hfinal
    exact hne (congrArg Prod.snd (Option.some.inj hfinal)).symm
  | literal | var | binary | unary | update | assign | convert => cases hcall

theorem form_mem (h : Lowered p options typed z m) (hf : f ∈ typed.functions) :
    ∃ exportName, f.form typed exportName ∈ m.functions := by
  rw [h.functions]
  exact ⟨_, List.mem_append_left _ (List.mem_map_of_mem hf)⟩

theorem body_of_mem (h : Lowered p options typed z m) {form : FunctionForm}
    (hform : form ∈ m.functions) : ∃ f ∈ typed.bodies, ∃ exportName, form = f.form typed exportName := by
  rw [h.functions, Typed.Program.forms, List.mem_append, List.mem_map, List.mem_singleton] at hform
  obtain ⟨f, hf, rfl⟩ | rfl := hform
  · exact ⟨f, List.mem_append_left _ hf, _, rfl⟩
  · exact ⟨typed.entry, List.mem_append_right _ (List.mem_singleton.mpr rfl), _, rfl⟩

/-- The functions of a module are the forms of the bodies, in order. -/
theorem forall₂_forms (h : Lowered p options typed z m) {R : Typed.Function → FunctionForm → Prop}
    (hR : ∀ f ∈ typed.bodies, ∀ exportName, R f (f.form typed exportName)) :
    List.Forall₂ R typed.bodies m.functions := by
  rw [Typed.Program.bodies, List.forall_mem_append, List.forall_mem_singleton] at hR
  rw [h.functions, Typed.Program.forms, Typed.Program.bodies]
  refine List.rel_append ?_ (.cons (hR.2 _) .nil)
  rw [List.forall₂_map_right_iff]
  exact List.forall₂_same.mpr fun f hf => hR.1 f hf _

/-- All forms are valid exactly if no result has outgrown its pin. -/
theorem valid_iff (h : Lowered p options typed z m) :
    (∀ form ∈ m.functions, form.Valid m) ↔ ¬ typed.ResultOutgrown z.log := by
  constructor
  · rintro hvalid ⟨f, hf, hempty, t, ht, hne⟩
    obtain ⟨exportName, hmem⟩ := h.form_mem hf
    exact h.not_valid hf hempty ht hne exportName (hvalid _ hmem)
  · intro hfit form hform
    obtain ⟨f, hf, exportName, rfl⟩ := h.body_of_mem hform
    exact h.valid (h.run.callsAgree_iff.mpr hfit) hf exportName

end Lowered

/-- The code of every function of a module is well typed exactly if no function without locals has
outgrown a pin. Then every statement has its lines in the code, and they leave the stack as they find
it. -/
theorem code_valid_unless_result_outgrown {source file : String} {options : Options} {p : Program}
    {typed : Typed.Program} {z : Checker} {m : WatModule} {z' : Emitter}
    (hp : Program.ofSource source file = .ok p) (hc : p.check options = .ok typed z)
    (hl : typed.lower options = .ok m z') :
    ((∀ form ∈ m.functions, form.Valid m) ↔ ¬ typed.ResultOutgrown z.log) ∧
    (¬ typed.ResultOutgrown z.log → List.Forall₂ (fun f form => form.name = f.name ∧
      (f.places typed).map (·.stmt) = Typed.partsOfStmts f.body ∧
      ∀ q ∈ f.places typed, Node.flatten q.code <:+: form.body ∧ (form.context m).Neutral q)
      typed.bodies m.functions) := by
  have h := Lowered.of_ok hp hc hl
  refine ⟨h.valid_iff, fun hfit => ?_⟩
  have ha := h.run.callsAgree_iff.mpr hfit
  refine h.forall₂_forms fun f hf exportName => ⟨rfl, ?_, h.places ha hf exportName⟩
  exact (f.context typed).map_placesAll [] 0 0 f.body

/-- A loop, a call of the host, a recursive type and a conversion. -/
theorem code_valid_with_loop_and_calls :
    ∃ p typed z m z', Program.ofSource ("fn gcd(a, b) \x7b while (b != 0) \x7b let t = a % b; a = b; " ++
        "b = t; \x7d return a; \x7d print(gcd(input(), 6) * 1.5);") "" = .ok p ∧
      p.check {} = .ok typed z ∧ typed.lower {} = .ok m z' ∧ ∀ form ∈ m.functions, form.Valid m := by
  obtain ⟨typed, hsource, hagree, haccepted⟩ := exists_ok_of_decide
    (P := fun typed : Typed.Program => typed.CallsAgree ∧
      (Coercion.firstRefusal typed.coercions).isNone = true)
    (x := checkSource ("fn gcd(a, b) \x7b while (b != 0) \x7b let t = a % b; a = b; " ++
        "b = t; \x7d return a; \x7d print(gcd(input(), 6) * 1.5);") "" {}) (by decide +kernel)
  obtain ⟨p, z, hp, hc⟩ := checkSource_eq_ok.mp hsource
  have hrun := ProgramRun.of_check hc
  have hlower := typed.lower_run hrun.lowerable {}
  rw [Option.isNone_iff_eq_none.mp haccepted] at hlower
  obtain ⟨imports, z', hl, -⟩ := hlower
  exact ⟨p, typed, z, _, z', hp, hc, hl,
    (code_valid_unless_result_outgrown hp hc hl).1.mpr (hrun.callsAgree_iff.mp hagree)⟩

/-- The call leaves an `f32` and the code converts an `i32`. -/
theorem code_not_valid_after_outgrown_call :
    ∃ p typed z m z', Program.ofSource "fn f() \x7b return f() + 1.5; \x7d" "" = .ok p ∧
      p.check {} = .ok typed z ∧ typed.lower {} = .ok m z' ∧ ¬ ∀ form ∈ m.functions, form.Valid m := by
  obtain ⟨typed, hsource, hagree, haccepted⟩ := exists_ok_of_decide
    (P := fun typed : Typed.Program => ¬ typed.CallsAgree ∧
      (Coercion.firstRefusal typed.coercions).isNone = true)
    (x := checkSource "fn f() \x7b return f() + 1.5; \x7d" "" {}) (by decide +kernel)
  obtain ⟨p, z, hp, hc⟩ := checkSource_eq_ok.mp hsource
  have hrun := ProgramRun.of_check hc
  have hlower := typed.lower_run hrun.lowerable {}
  rw [Option.isNone_iff_eq_none.mp haccepted] at hlower
  obtain ⟨imports, z', hl, -⟩ := hlower
  refine ⟨p, typed, z, _, z', hp, hc, hl, fun hvalid => hagree ?_⟩
  exact hrun.callsAgree_iff.mpr ((Lowered.of_ok hp hc hl).valid_iff.mp hvalid)

end Numlet
