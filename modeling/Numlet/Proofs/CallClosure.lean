import Numlet.Proofs.Code.Sites
import Numlet.Proofs.Identifiers
import Numlet.Proofs.Validity

/-!
A module is closed under calls. Each call line belongs to its own call of the program, whose arguments are
turned into the parameter types that the module declares for the callee. A result is dropped exactly where
the call is a statement. What is imported is what some line calls. Only the type that a value is used at can
differ from the declared result, in a function without locals that has outgrown a pin.
-/
namespace Numlet

/-- The name that a line calls, as it is written. -/
def Instr.callee? : Instr → Option String
  | .call target => some (signed target)
  | _ => none

/-- The names that the lines of a module call. -/
def WatModule.called (m : WatModule) : List String :=
  m.functions.flatMap fun f => f.body.filterMap Instr.callee?

theorem WatModule.mem_called {m : WatModule} {name : String} :
    name ∈ m.called ↔ ∃ form ∈ m.functions, ∃ target, .call target ∈ form.body ∧ signed target = name := by
  have hline : ∀ i : Instr, i.callee? = some name ↔ ∃ target, i = .call target ∧ signed target = name := by
    intro i
    cases i with
    | call target => simp [Instr.callee?]
    | const | getLocal | setLocal | numeric | eqz | convert | block | loop | ifThen | ifValue | orElse | finish
    | br | brIf | ret | drop | unreachable | verbatim => simp [Instr.callee?]
  simp only [called, List.mem_flatMap, List.mem_filterMap, hline]
  constructor
  · rintro ⟨form, hform, i, hi, target, rfl, hname⟩
    exact ⟨form, hform, target, hi, hname⟩
  · rintro ⟨form, hform, target, hi, hname⟩
    exact ⟨form, hform, _, hi, target, rfl, hname⟩

namespace Typed

/-- The type that the value of a call is used at is the result that the module declares. -/
def CallSite.ValueAgrees (m : WatModule) (site : CallSite) : Prop :=
  ∀ t, site.valueType = some t → m.signature? site.target = some (site.parameterTypes, some t)

theorem Expr.host?_eq (e : Expr) : e.host? = e.callSite?.bind fun site => Host.find? site.callee := by
  cases e <;> rfl

theorem Stmt.host?_eq (s : Stmt) : s.host? = s.callSite?.bind fun site => Host.find? site.callee := by
  cases s <;> rfl

/-- The functions of the host that a function calls are the callees of its calls. -/
theorem Function.mem_hosts {f : Function} {host : Host} :
    host ∈ f.hosts ↔ ∃ site ∈ f.callSites, Host.find? site.callee = some host := by
  have hall : f.hosts = (sitesOf (exprsOfStmts f.body) ++ stmtSitesOf (partsOfStmts f.body)).filterMap
      fun site => Host.find? site.callee := by
    simp only [hosts, Typed.hosts, stmtHosts, sitesOf, stmtSitesOf, List.filterMap_append,
      List.filterMap_filterMap, funext Expr.host?_eq, funext Stmt.host?_eq]
  simp only [hall, List.mem_filterMap, List.mem_append, mem_callSites]

end Typed

namespace Lowered

variable {p : Program} {options : Options} {typed : Typed.Program} {z : Checker} {m : WatModule}
  {f : Typed.Function} {site : Typed.CallSite}

/-- The callee of a call has the parameter types that the arguments are turned into, which are no narrower
than the arguments, and a result if the value of the call is used. -/
theorem site_known (h : Lowered p options typed z m) (hf : f ∈ typed.bodies) (hs : site ∈ f.callSites) :
    ∃ result, typed.signature? site.callee = some (site.parameterTypes, result) ∧
      (site.valueType.isSome = true → result.isSome = true) ∧
      Typed.Fits site.arguments site.parameterTypes := by
  have hsound := h.run.sound f hf
  obtain hs | hs := Typed.Function.mem_callSites.mp hs
  · obtain ⟨x, hx, hsite⟩ := List.mem_filterMap.mp hs
    cases x with
    | call callee arguments types callSpan t span =>
      cases hsite
      obtain ⟨⟨r, hr⟩, hfits⟩ := hsound.exprs _ hx
      exact ⟨some r, hr, fun _ => rfl, hfits⟩
    | literal | var | binary | unary | update | assign | convert => cases hsite
  · obtain ⟨x, hx, hsite⟩ := List.mem_filterMap.mp hs
    cases x with
    | call callee arguments types span =>
      cases hsite
      obtain ⟨⟨r, hr⟩, hfits⟩ := hsound.stmts _ hx
      exact ⟨r, hr, fun hvalue => (nomatch hvalue), hfits⟩
    | print value span =>
      cases hsite
      refine ⟨none, ?_, fun hvalue => (nomatch hvalue), .cons (Nat.le_refl _) .nil⟩
      unfold Typed.Program.signature?
      cases value.type <;> rfl
    | declare | assign | branch | loop | breakLoop | continueLoop | returnValue | block | expression =>
      cases hsite

/-- The module declares a callee as the program knows it. -/
theorem site_declared (h : Lowered p options typed z m) (hf : f ∈ typed.bodies) (hs : site ∈ f.callSites)
    {signature : List NumType × Option NumType} (hsig : typed.signature? site.callee = some signature) :
    m.signature? site.target = some signature :=
  h.signature? hf hsig fun _ hfound => Typed.Function.mem_hosts.mpr ⟨site, hs, hfound⟩

/-- Values are used at the declared results exactly if no result has outgrown its pin. -/
theorem valueAgrees_iff (h : Lowered p options typed z m) :
    (∀ f ∈ typed.bodies, ∀ site ∈ f.callSites, site.ValueAgrees m) ↔ ¬ typed.ResultOutgrown z.log := by
  rw [← h.run.callsAgree_iff]
  constructor
  · intro hall x hx
    obtain ⟨f, hf, hx⟩ := List.mem_flatMap.mp hx
    cases x with
    | call callee arguments types callSpan t span =>
      have hs : ⟨callee, arguments, types, some t⟩ ∈ f.callSites :=
        Typed.Function.mem_callSites.mpr (.inl (List.mem_filterMap.mpr ⟨_, hx, rfl⟩))
      obtain ⟨result, hsig, -, hfits⟩ := h.site_known hf hs
      have hsame := (h.site_declared hf hs hsig).symm.trans (hall f hf _ hs t rfl)
      rw [Option.some.inj hsame] at hsig
      exact ⟨hsig, hfits.length_eq⟩
    | literal | var | binary | unary | update | assign | convert => trivial
  · intro hagree f hf site hs t ht
    refine h.site_declared hf hs ?_
    obtain hs | hs := Typed.Function.mem_callSites.mp hs
    · obtain ⟨x, hx, hsite⟩ := List.mem_filterMap.mp hs
      cases x with
      | call callee arguments types callSpan type span =>
        cases hsite
        cases ht
        exact (hagree _ (mem_exprs hf hx)).1
      | literal | var | binary | unary | update | assign | convert => cases hsite
    · obtain ⟨x, hx, hsite⟩ := List.mem_filterMap.mp hs
      cases x with
      | call | print =>
        cases hsite
        cases ht
      | declare | assign | branch | loop | breakLoop | continueLoop | returnValue | block | expression =>
        cases hsite

/-- The lines that call or drop in the form of a function are those of its body. -/
theorem form_calls (h : Lowered p options typed z m) (hf : f ∈ typed.bodies) (exportName : Option String) :
    (f.context typed).Calls (f.form typed exportName).body f.occurrences :=
  Typed.Function.code_calls (h.run.sound f hf)

/-- A function of the host is called from a body exactly if some line calls it. -/
theorem called_iff (h : Lowered p options typed z m) {host : Host} :
    signed host.target ∈ m.called ↔ ∃ f ∈ typed.bodies, host ∈ f.hosts := by
  rw [WatModule.mem_called]
  constructor
  · rintro ⟨form, hform, target, hline, hname⟩
    obtain ⟨f, hf, exportName, rfl⟩ := h.body_of_mem hform
    obtain ⟨site, hin, rfl⟩ := (h.form_calls hf exportName).call_mem_iff.mp hline
    have hs := Typed.Function.call_mem_occurrences.mp hin
    refine ⟨f, hf, Typed.Function.mem_hosts.mpr ⟨site, hs, ?_⟩⟩
    obtain ⟨result, hsig, -, -⟩ := h.site_known hf hs
    cases hfound : Host.find? site.callee with
    | some other =>
      rw [Typed.CallSite.target, Host.resolve_eq hfound] at hname
      rw [Host.signed_target_inj hname]
    | none =>
      -- The callee is a function of the program, and none of them has the name of an import.
      obtain ⟨g, hg, -, htarget, -⟩ := Typed.Program.function_of_signature? hsig hfound
      have hnames := (h.run.function_names h.readable.names).2 g hg
      rw [Typed.CallSite.target, htarget] at hname
      exact absurd ((bareName_eq_of_signed hname).symm.trans hnames.1) (hnames.2 host)
  · rintro ⟨f, hf, hin⟩
    obtain ⟨site, hs, hfound⟩ := Typed.Function.mem_hosts.mp hin
    have htarget : site.target = host.target := Host.resolve_eq hfound
    have hform : ∃ exportName, f.form typed exportName ∈ m.functions := by
      rw [h.functions, Typed.Program.forms]
      obtain hf | hf := List.mem_append.mp hf
      · exact ⟨_, List.mem_append_left _ (List.mem_map_of_mem hf)⟩
      · rw [List.mem_singleton.mp hf]
        exact ⟨_, List.mem_append_right _ List.mem_cons_self⟩
    obtain ⟨exportName, hform⟩ := hform
    refine ⟨_, hform, site.target, ?_, by rw [htarget]⟩
    exact (h.form_calls hf exportName).call_mem_iff.mpr
      ⟨site, Typed.Function.call_mem_occurrences.mpr hs, rfl⟩

theorem imports_eq (h : Lowered p options typed z m) :
    m.imports = Host.all.filter fun host => m.called.contains (signed host.target) := by
  rw [h.imports]
  refine List.filter_congr fun host _ => ?_
  rw [Bool.eq_iff_iff, List.contains_iff_mem, h.called_iff]
  simp

end Lowered

/-- In each function the lines that call or drop are, one after the other, those of its calls and of the
expressions that it has as statements. Each call has its line right behind the code of its own arguments,
turned into the parameter types that the module declares for the callee, and adds a drop to it exactly if
the call is a statement and the callee has a result. Values are used at the declared results exactly if no
function without locals has outgrown a pin. The imports are the functions of the host that some line calls,
in the order of the host. -/
theorem calls_closed_unless_result_outgrown {source file text : String} {options : Options}
    (h : compileSource source file options = .ok text) :
    ∃ p typed z m z', Program.ofSource source file = .ok p ∧ p.check options = .ok typed z ∧
      typed.lower options = .ok m z' ∧ m.text = text ∧
      List.Forall₂ (fun f form => form.name = f.name ∧
        (f.context typed).Calls form.body f.occurrences ∧
        form.body.filter Instr.callsOrDrops = f.occurrences.flatMap (·.lines (f.context typed)) ∧
        ∀ site ∈ f.callSites, ∃ result, (f.context typed).resultOf site.callee = result ∧
          m.signature? site.target = some (site.parameterTypes, result) ∧
          (site.valueType.isSome = true → result.isSome = true) ∧
          Typed.Fits site.arguments site.parameterTypes) typed.bodies m.functions ∧
      ((∀ f ∈ typed.bodies, ∀ site ∈ f.callSites, site.ValueAgrees m) ↔
        ¬ typed.ResultOutgrown z.log) ∧
      m.imports = Host.all.filter fun host => m.called.contains (signed host.target) := by
  obtain ⟨typed, m, z', hsource, hl, htext⟩ := compileSource_eq_ok.mp h
  obtain ⟨p, z, hp, hc⟩ := checkSource_eq_ok.mp hsource
  have hlowered := Lowered.of_ok hp hc hl
  refine ⟨p, typed, z, m, z', hp, hc, hl, htext, ?_, hlowered.valueAgrees_iff, hlowered.imports_eq⟩
  refine hlowered.forall₂_forms fun f hf exportName => ⟨rfl, hlowered.form_calls hf exportName,
    (hlowered.form_calls hf exportName).filter_eq, ?_⟩
  intro site hs
  obtain ⟨result, hsig, hvalue, hfits⟩ := hlowered.site_known hf hs
  refine ⟨result, ?_, hlowered.site_declared hf hs hsig, hvalue, hfits⟩
  change (typed.signature? site.callee).bind (·.2) = result
  rw [hsig]
  rfl

/-- Calls that are statements, with and without a result, and one that is all that an unused expression
computes. -/
def discardingSource : String :=
  "fn f(x: f64) \x7b return x; \x7d fn g() \x7b print 1; \x7d f(1); g(); +f(2); print f(input());"

/-- The lines that call or drop in the functions of a module. -/
def WatModule.callLines (m : WatModule) : List (List String) :=
  m.functions.map fun form => (form.body.filter Instr.callsOrDrops).map Instr.text

/-- The result of `f` is dropped twice, and `g` has none. -/
theorem calls_closed_with_dropped_result :
    ∃ m : WatModule, compileSource discardingSource "" {} = .ok m.text ∧
      m.callLines = [[], ["call $print_i32"], ["call $f", "drop", "call $g", "call $f", "drop",
        "call $read_i32", "call $f", "call $print_f64"]] ∧
      m.imports = [.input, .print .i32, .print .f64] ∧
      (∃ typed : Typed.Program, List.Forall₂ (fun f form => form.body.filter Instr.callsOrDrops =
        f.occurrences.flatMap (·.lines (f.context typed))) typed.bodies m.functions) ∧
      m.imports = Host.all.filter fun host => m.called.contains (signed host.target) := by
  obtain ⟨typed, m, z, hsource, hl, hlines, himports⟩ := exists_module_of_decide discardingSource "" {}
    (P := fun m => m.callLines = [[], ["call $print_i32"], ["call $f", "drop", "call $g", "call $f", "drop",
      "call $read_i32", "call $f", "call $print_f64"]] ∧ m.imports = [.input, .print .i32, .print .f64])
    (by decide +kernel)
  have h := compileSource_eq_ok.mpr ⟨typed, m, z, hsource, hl, rfl⟩
  obtain ⟨p, typed', z₁, m', z', hp, hc, hl', -, hforms, -, hfilter⟩ :=
    calls_closed_unless_result_outgrown h
  cases hsource.symm.trans (checkSource_eq_ok.mpr ⟨p, z₁, hp, hc⟩)
  cases hl.symm.trans hl'
  exact ⟨m, h, hlines, himports, ⟨typed, hforms.imp fun _ _ hform => hform.2.2.1⟩, hfilter⟩

/-- The call line of a function with the result `f32`, before a line that takes the value for an `i32`. -/
theorem call_line_with_outgrown_result :
    ∃ m : WatModule, compileSource "fn f() \x7b return f() + 1.5; \x7d" "" {} = .ok m.text ∧
      m.signature? "f" = some ([], some .f32) ∧
      ∃ form ∈ m.functions, [.call "f", .convert .f32OfI32] <+: form.body := by
  obtain ⟨typed, m, z, hsource, hl, hm⟩ := exists_module_of_decide "fn f() \x7b return f() + 1.5; \x7d" ""
    {} (P := fun m => m.signature? "f" = some ([], some .f32) ∧
      ∃ form ∈ m.functions, [.call "f", .convert .f32OfI32] <+: form.body) (by decide +kernel)
  exact ⟨m, compileSource_eq_ok.mpr ⟨typed, m, z, hsource, hl, rfl⟩, hm⟩

end Numlet
