import Numlet.Proofs.Check.Locals
import Numlet.Proofs.Check.Order

/-!
The order of function definitions. Where every function whose value is used has a declared result, functions can
be written in any order: the same programs are accepted, each function is checked to the same form and lowered
to the same code, and the module imports the same functions.
-/
namespace Numlet
open Checking

/-- The functions whose values a program uses. -/
def Program.usedCalls (p : Program) : List String :=
  p.functions.flatMap (fun f => usedCallsOfStmts f.body) ++ usedCallsOfStmts p.body

/-- Every function of the program whose value is used has a declared result. -/
def Program.ResultsDeclared (p : Program) : Prop :=
  ∀ f ∈ p.functions, f.name ∈ p.usedCalls → f.result.isSome = true

instance (p : Program) : Decidable p.ResultsDeclared :=
  inferInstanceAs (Decidable (∀ f ∈ p.functions, f.name ∈ p.usedCalls → f.result.isSome = true))

/-- Two lists are made in the same way, item by item, from two lists of functions. -/
def MadeAlike {α : Type} (fs gs : List Function) (as bs : List α) : Prop :=
  ∃ make : Function → α, as = fs.map make ∧ bs = gs.map make

/-- The first item of a name does not depend on the order if names differ. -/
theorem find?_name_of_perm {α : Type} {name : α → String} {as bs : List α} (h : bs.Perm as)
    (hnodup : (as.map name).Nodup) (x : String) :
    bs.find? (name · == x) = as.find? (name · == x) := by
  induction h with
  | nil => rfl
  | cons a _ ih =>
    rw [List.map_cons, List.nodup_cons] at hnodup
    rw [List.find?_cons, List.find?_cons, ih hnodup.2]
  | swap a b l =>
    have hne : name a ≠ name b := by
      intro heq
      simp [heq] at hnodup
    simp only [List.find?_cons]
    cases ha : name a == x with
    | false => rfl
    | true =>
      have hb : (name b == x) = false := by
        rw [← beq_iff_eq.mp ha]
        exact beq_false_of_ne hne.symm
      rw [hb]
  | trans h₁ h₂ ih₁ ih₂ => rw [ih₁ ((h₂.map name).nodup_iff.mpr hnodup), ih₂ hnodup]

section Declaring

variable {fs : List Function} {s s' : Checker}

theorem checkParameters_ok {ps : List Parameter} (function : String) {earlier : List String}
    (hnodup : (ps.map (·.name)).Nodup) (hnew : ∀ p ∈ ps, p.name ∉ earlier) (s : Checker) :
    checkParameters function earlier ps s = .ok () s := by
  induction ps generalizing earlier with
  | nil => rfl
  | cons p ps ih =>
    rw [List.map_cons, List.nodup_cons] at hnodup
    rw [List.forall_mem_cons] at hnew
    have hc : ¬ earlier.contains p.name = true := by simpa using hnew.1
    rw [checkParameters, if_neg hc]
    refine ih hnodup.2 fun q hq hin => ?_
    obtain hsame | hin := List.mem_cons.mp hin
    · exact hnodup.1 (hsame ▸ List.mem_map_of_mem hq)
    · exact hnew.2 q hq hin

/-- Functions with names of their own and parameters that differ can be declared. -/
theorem declareFunctions_ok (hnodup : (fs.map (·.name)).Nodup)
    (hnew : ∀ f ∈ fs, s.signatures.find? f.name = none)
    (hnames : ∀ f ∈ fs, f.name ≠ s.options.entryName ∧ (∀ h ∈ Host.all, bareName h.target ≠ f.name) ∧
      (f.parameters.map (·.name)).Nodup) : ∃ s', declareFunctions fs s = .ok () s' := by
  induction fs generalizing s with
  | nil => exact ⟨s, rfl⟩
  | cons f fs ih =>
    rw [List.map_cons, List.nodup_cons] at hnodup
    rw [List.forall_mem_cons] at hnew hnames
    have hfirst : declareFunction f s = .ok () (s.withSignature f.name f.signature) := by
      unfold declareFunction
      rw [bind_of_ok (get_eq_ok.mpr ⟨rfl, rfl⟩)]
      have hc : (s.signatures.contains f.name || f.name = s.options.entryName ||
          Host.all.any (fun h => bareName h.target == f.name)) = false := by
        simp only [Table.contains, hnew.1, hnames.1.1, Bool.or_eq_false_iff, List.any_eq_false, beq_iff_eq]
        exact ⟨⟨rfl, rfl⟩, hnames.1.2.1⟩
      rw [if_neg (by simp [hc])]
      exact bind_of_ok (checkParameters_ok f.name hnames.1.2.2 (by simp) s)
    have hnew' : ∀ g ∈ fs, (s.withSignature f.name f.signature).signatures.find? g.name = none := by
      intro g hg
      have hne : g.name ≠ f.name := fun heq => hnodup.1 (heq ▸ List.mem_map_of_mem hg)
      exact (Table.find?_insert_of_ne _ _ hne).trans (hnew.2 g hg)
    obtain ⟨s', hrest⟩ := ih hnodup.2 hnew' hnames.2
    exact ⟨s', (bind_of_ok hfirst).trans hrest⟩

theorem DeclareRun.scope_eq (h : DeclareRun fs s s') : s'.scope = s.scope := by
  induction h with
  | nil => rfl
  | cons _ _ _ _ _ ih => exact ih

/-- Functions can be declared in any order, and the same is known of them then. -/
theorem declareFunctions_reordered {gs : List Function} (hperm : gs.Perm fs)
    (h : declareFunctions fs s = .ok () s') :
    ∃ t, declareFunctions gs s = .ok () t ∧ s'.AsDeclared (fun _ => True) t := by
  have hrun := DeclareRun.of_check h
  obtain ⟨t, ht⟩ := declareFunctions_ok ((hperm.map (·.name)).nodup_iff.mpr hrun.nodup)
    (fun g hg => hrun.new_names g (hperm.mem_iff.mp hg)) (fun g hg => hrun.names g (hperm.mem_iff.mp hg))
  have hrun' := DeclareRun.of_check ht
  have hfind : ∀ name, t.signatures.find? name = s'.signatures.find? name := by
    intro name
    rw [hrun.find?_eq, hrun'.find?_eq, find?_name_of_perm hperm hrun.nodup]
  refine ⟨t, ht, hrun'.rest.2.trans hrun.rest.2.symm, hrun'.scope_eq.trans hrun.scope_eq.symm, ?_, ?_, ?_⟩
  · intro name
    rw [hfind]
  · intro name signature signature' _ hs hs'
    cases hs.symm.trans ((hfind name).symm.trans hs')
    exact .refl _
  · exact fun name _ => hfind name

end Declaring

namespace Program

variable {p : Program} {options : Options} {typed : Typed.Program} {z : Checker}

/-- The functions whose values are used have results that no check changes. -/
theorem ResultsDeclared.fixedFor (h : p.ResultsDeclared) {s : Checker}
    (hd : DeclareRun p.functions (.new options) s) {name : String} (hname : name ∈ p.usedCalls) :
    s.FixedFor name := by
  intro signature hs
  rw [hd.find?_eq] at hs
  cases hf : p.functions.find? (·.name == name) with
  | some f =>
    rw [hf] at hs
    cases hs
    have hsame : f.name = name := by simpa using List.find?_some hf
    exact h f (List.mem_of_find?_eq_some hf) (hsame ▸ hname)
  | none =>
    rw [hf] at hs
    obtain ⟨host, -, heq⟩ := List.mem_map.mp (Table.mem_of_find?_ofList hs)
    cases heq
    rfl

/-- After the declarations: each part of the program uses only values of functions with fixed results. -/
theorem ResultsDeclared.used (h : p.ResultsDeclared) {s : Checker}
    (hd : DeclareRun p.functions (.new options) s) :
    (∀ f ∈ p.functions, ∀ name ∈ usedCallsOfStmts f.body, s.FixedFor name) ∧
      ∀ name ∈ usedCallsOfStmts p.body, s.FixedFor name :=
  ⟨fun f hf _ hname => h.fixedFor hd (List.mem_append_left _ (List.mem_flatMap.mpr ⟨f, hf, hname⟩)),
    fun _ hname => h.fixedFor hd (List.mem_append_right _ hname)⟩

/-- In a program that is accepted each part passes alone, right after the declarations. -/
theorem check_alone (hresults : p.ResultsDeclared) (h : p.check options = .ok typed z) :
    Text.isWord options.entryName = true ∧ ∃ s, declareFunctions p.functions (.new options) = .ok () s ∧
      p.functions.map (·.alone s) = typed.functions.map some ∧
      ∃ z', checkEntry p.body p.bodySpan s = .ok typed.entry z' := by
  obtain ⟨hword, s, s₁, hd, hf, he⟩ := check_eq_ok.mp h
  have hrun := DeclareRun.of_check hd
  have hscope : s.scope.function = none := congrArg Scope.function hrun.scope_eq
  obtain ⟨hused, hentry⟩ := hresults.used hrun
  obtain ⟨halone, _, hs₁⟩ :=
    checkFunctions_alone hscope (.refl s) (fun _ _ => trivial) hrun.nodup hused hf
  exact ⟨hword, s, hd, halone, (hs₁.checkEntry_iff hscope p.bodySpan hentry).mp ⟨z, he⟩⟩

/-- If each part passes alone, then the program is accepted with its functions in any order. -/
theorem check_of_alone (hresults : p.ResultsDeclared) (hword : Text.isWord options.entryName = true)
    {s : Checker} (hd : declareFunctions p.functions (.new options) = .ok () s) {fs : List Function}
    (hperm : fs.Perm p.functions) {ts : List Typed.Function} {entry : Typed.Function}
    (halone : fs.map (·.alone s) = ts.map some) (he : ∃ z, checkEntry p.body p.bodySpan s = .ok entry z) :
    ∃ z, check { p with functions := fs } options = .ok ⟨ts, entry⟩ z := by
  have hrun := DeclareRun.of_check hd
  have hscope : s.scope.function = none := congrArg Scope.function hrun.scope_eq
  obtain ⟨hused, hentry⟩ := hresults.used hrun
  have hnodup : (fs.map (·.name)).Nodup := (hperm.map (·.name)).nodup_iff.mpr hrun.nodup
  have hused' : ∀ f ∈ fs, ∀ name ∈ usedCallsOfStmts f.body, s.FixedFor name :=
    fun f hf => hused f (hperm.mem_iff.mp hf)
  obtain ⟨t, ht, hstart⟩ := declareFunctions_reordered hperm hd
  obtain ⟨t₁, hfs⟩ := checkFunctions_of_alone hscope hstart (fun _ _ => trivial) hnodup hused' halone
  obtain ⟨-, _, hend⟩ := checkFunctions_alone hscope hstart (fun _ _ => trivial) hnodup hused' hfs
  obtain ⟨z, hz⟩ := (hend.checkEntry_iff hscope p.bodySpan hentry).mpr he
  exact ⟨z, check_eq_ok.mpr ⟨hword, t, t₁, ht, hfs, hz⟩⟩

/-- A program that is accepted is accepted with its functions in any order, and each is checked to the same
form. -/
theorem check_reordered {fs : List Function} (hperm : fs.Perm p.functions) (hresults : p.ResultsDeclared)
    (h : p.check options = .ok typed z) :
    ∃ ts z', check { p with functions := fs } options = .ok ⟨ts, typed.entry⟩ z' ∧
      MadeAlike p.functions fs typed.functions ts := by
  obtain ⟨hword, s, hd, halone, he⟩ := check_alone hresults h
  have hfunctions : typed.functions = p.functions.map fun f => (f.alone s).getD default := by
    have hmap := congrArg (List.map (Option.getD · default)) halone
    simpa [Function.comp_def] using hmap.symm
  have hpass : ∀ f ∈ p.functions, f.alone s = some ((f.alone s).getD default) := by
    intro f hf
    have hin : f.alone s ∈ typed.functions.map some := halone ▸ List.mem_map_of_mem hf
    obtain ⟨t, -, ht⟩ := List.mem_map.mp hin
    rw [← ht, Option.getD_some]
  have halone' : fs.map (·.alone s) = (fs.map fun f => (f.alone s).getD default).map some := by
    rw [List.map_map]
    exact List.map_congr_left fun f hf => hpass f (hperm.mem_iff.mp hf)
  obtain ⟨z', hz'⟩ := check_of_alone hresults hword hd hperm halone' he
  exact ⟨_, z', hz', _, hfunctions, rfl⟩

theorem ResultsDeclared.reordered (h : p.ResultsDeclared) {fs : List Function} (hperm : fs.Perm p.functions) :
    ResultsDeclared { p with functions := fs } := by
  have hused : ∀ name, name ∈ usedCalls { p with functions := fs } → name ∈ p.usedCalls := by
    intro name hname
    obtain hname | hname := List.mem_append.mp hname
    · obtain ⟨f, hf, hin⟩ := List.mem_flatMap.mp hname
      exact List.mem_append_left _ (List.mem_flatMap.mpr ⟨f, hperm.mem_iff.mp hf, hin⟩)
    · exact List.mem_append_right _ hname
  exact fun f hf hname => h f (hperm.mem_iff.mp hf) (hused _ hname)

end Program

/-- Modules that have the same imports and, apart from the order, the same functions, with the same entry at
the end. -/
def WatModule.Reordered (fs gs : List Function) (m m' : WatModule) : Prop :=
  m'.imports = m.imports ∧ ∃ forms forms' entry, MadeAlike fs gs forms forms' ∧
    m.functions = forms ++ [entry] ∧ m'.functions = forms' ++ [entry]

theorem MadeAlike.perm {α : Type} {fs gs : List Function} {as bs : List α} (h : MadeAlike fs gs as bs)
    (hperm : gs.Perm fs) : bs.Perm as := by
  obtain ⟨make, rfl, rfl⟩ := h
  exact hperm.map make

theorem MadeAlike.map {α β : Type} {fs gs : List Function} {as bs : List α} (h : MadeAlike fs gs as bs)
    (g : α → β) : MadeAlike fs gs (as.map g) (bs.map g) := by
  obtain ⟨make, rfl, rfl⟩ := h
  exact ⟨g ∘ make, List.map_map, List.map_map⟩

namespace Typed.Program

variable {p q : Program} (hperm : q.functions.Perm p.functions)

include hperm

theorem signature?_of_perm (hnodup : (p.functions.map (·.name)).Nodup) : q.signature? = p.signature? := by
  funext name
  unfold signature?
  rw [find?_name_of_perm hperm hnodup]

theorem bodies_of_perm (hentry : q.entry = p.entry) : q.bodies.Perm p.bodies := by
  unfold bodies
  rw [hentry]
  exact hperm.append_right _

/-- No coercion of a program is refused, or one is, whatever the order of its functions. -/
theorem accepted_of_perm (hentry : q.entry = p.entry) (hsignature : q.signature? = p.signature?) :
    Coercion.firstRefusal q.coercions = none ↔ Coercion.firstRefusal p.coercions = none := by
  have hcoercions : ∀ f : Typed.Function, f.coercions q = f.coercions p := by
    intro f
    rw [Typed.Function.coercions, Typed.Function.context, hsignature]
    rfl
  have hmem : ∀ k, k ∈ q.coercions ↔ k ∈ p.coercions := by
    intro k
    simp only [coercions, List.mem_flatMap, hcoercions, (bodies_of_perm hperm hentry).mem_iff]
  simp only [Coercion.firstRefusal, List.findSome?_eq_none_iff, hmem]

end Typed.Program

namespace Typed

/-- The form of a function depends on its program only by the signatures of the functions that it calls. -/
theorem Function.form_congr {p q : Program} (h : q.signature? = p.signature?) (f : Function)
    (exportName : Option String) : f.form q exportName = f.form p exportName := by
  have hcode : f.code q = f.code p := by
    rw [code, nodes, context, h]
    rfl
  rw [form, form, slots, slots, hcode]

theorem Program.lower_ok_iff {p : Program} (h : ∀ f ∈ p.bodies, f.Lowerable p) (options : Options) :
    (∃ m w, p.lower options = .ok m w) ↔ Coercion.firstRefusal p.coercions = none := by
  have hrun := p.lower_run h options
  cases hr : Coercion.firstRefusal p.coercions with
  | none =>
    rw [hr] at hrun
    obtain ⟨imports, w, hw, -⟩ := hrun
    exact ⟨fun _ => rfl, fun _ => ⟨_, w, hw⟩⟩
  | some d =>
    rw [hr] at hrun
    obtain ⟨w, hw⟩ := hrun
    constructor
    · rintro ⟨m, w', hm⟩
      cases hw.symm.trans hm
    · intro hnone
      cases hnone

/-- Programs with the same functions in another order are lowered together, to modules that differ only in the
order. -/
theorem Program.lower_reordered {p q : Program} {fs gs : List Numlet.Function} (hperm : gs.Perm fs)
    (hmade : MadeAlike fs gs p.functions q.functions) (hentry : q.entry = p.entry)
    (hnodup : (p.functions.map (·.name)).Nodup) (hp : ∀ f ∈ p.bodies, f.Lowerable p)
    (hq : ∀ f ∈ q.bodies, f.Lowerable q) (options : Options) :
    ((∃ m w, p.lower options = .ok m w) ↔ ∃ m w, q.lower options = .ok m w) ∧
      ∀ m w m' w', p.lower options = .ok m w → q.lower options = .ok m' w' → m.Reordered fs gs m' := by
  have hfunctions := hmade.perm hperm
  have hsignature := signature?_of_perm hfunctions hnodup
  rw [lower_ok_iff hp, lower_ok_iff hq, accepted_of_perm hfunctions hentry hsignature]
  refine ⟨Iff.rfl, fun m w m' w' hm hm' => ?_⟩
  obtain ⟨-, hforms, himports⟩ := of_lower hp hm
  obtain ⟨-, hforms', himports'⟩ := of_lower hq hm'
  constructor
  · rw [himports, himports']
    refine List.filter_congr fun host _ => ?_
    rw [Bool.eq_iff_iff, List.any_eq_true, List.any_eq_true]
    simp only [(bodies_of_perm hfunctions hentry).mem_iff]
  · refine ⟨_, _, _, hmade.map fun f => f.form p (if options.exportFunctions then some f.name else none),
      hforms, ?_⟩
    rw [hforms', forms, hentry]
    simp only [Function.form_congr hsignature]

end Typed

/-- Where every function whose value is used has a declared result, the order of the functions does not
matter. -/
theorem definition_order_irrelevant {p : Program} {fs : List Function} (hperm : fs.Perm p.functions)
    (hresults : p.ResultsDeclared) (options : Options) :
    ((∃ typed z, p.check options = .ok typed z) ↔
      ∃ typed z, Program.check { p with functions := fs } options = .ok typed z) ∧
    ∀ typed z typed' z', p.check options = .ok typed z →
      Program.check { p with functions := fs } options = .ok typed' z' →
      MadeAlike p.functions fs typed.functions typed'.functions ∧ typed'.entry = typed.entry ∧
      ((∃ m w, typed.lower options = .ok m w) ↔ ∃ m w, typed'.lower options = .ok m w) ∧
      ∀ m w m' w', typed.lower options = .ok m w → typed'.lower options = .ok m' w' →
        m.Reordered p.functions fs m' := by
  constructor
  · constructor
    · rintro ⟨typed, z, h⟩
      obtain ⟨ts, z', h', -⟩ := Program.check_reordered hperm hresults h
      exact ⟨_, z', h'⟩
    · rintro ⟨typed, z, h⟩
      obtain ⟨ts, z', h', -⟩ := Program.check_reordered hperm.symm (hresults.reordered hperm) h
      exact ⟨_, z', h'⟩
  · intro typed z typed' z' h h'
    obtain ⟨ts, z'', hreordered, hmade⟩ := Program.check_reordered hperm hresults h
    cases h'.symm.trans hreordered
    have hrun := ProgramRun.of_check h
    have hnodup : (typed.functions.map (·.name)).Nodup := by
      obtain ⟨-, hd, hf, -⟩ := hrun
      rw [hf.names_eq]
      exact hd.nodup
    exact ⟨hmade, rfl, Typed.Program.lower_reordered (q := ⟨ts, typed.entry⟩) hperm hmade rfl hnodup
      hrun.lowerable (ProgramRun.of_check h').lowerable options⟩

/-- Functions that call each other, and one with an inferred result that is called as a statement only, written
in the opposite order. -/
theorem definition_order_irrelevant_reversed :
    ∃ p typed z m w, Program.ofSource
        ("fn even(n) -> i32 \x7b if n == 0 \x7b return 1; \x7d return odd(n - 1); \x7d " ++
          "fn odd(n) -> i32 \x7b if n == 0 \x7b return 0; \x7d return even(n - 1); \x7d " ++
          "fn show(x) \x7b print odd(x); return x * 1.5; \x7d show(3); print even(7);") "" = .ok p ∧
      p.functions.map (·.name) = ["even", "odd", "show"] ∧ p.ResultsDeclared ∧
      p.check {} = .ok typed z ∧ typed.lower {} = .ok m w ∧
      ∃ typed' z' m' w', Program.check { p with functions := p.functions.reverse } {} = .ok typed' z' ∧
        MadeAlike p.functions p.functions.reverse typed.functions typed'.functions ∧
        typed'.entry = typed.entry ∧ typed'.lower {} = .ok m' w' ∧
        m.Reordered p.functions p.functions.reverse m' := by
  obtain ⟨p, hp, hresults, hnames, hok⟩ := exists_ok_of_decide
    (P := fun p : Program => p.ResultsDeclared ∧ p.functions.map (·.name) = ["even", "odd", "show"] ∧
      (match p.check {} with
        | .ok typed _ =>
          (match typed.lower {} with
            | .ok _ _ => true
            | .error _ _ => false)
        | .error _ _ => false) = true)
    (x := Program.ofSource
      ("fn even(n) -> i32 \x7b if n == 0 \x7b return 1; \x7d return odd(n - 1); \x7d " ++
        "fn odd(n) -> i32 \x7b if n == 0 \x7b return 0; \x7d return even(n - 1); \x7d " ++
        "fn show(x) \x7b print odd(x); return x * 1.5; \x7d show(3); print even(7);") "")
    (by decide +kernel)
  obtain ⟨haccepted, hall⟩ := definition_order_irrelevant p.functions.reverse_perm hresults {}
  split at hok
  · next typed z h =>
    split at hok
    · next m w hm =>
      obtain ⟨typed', z', h'⟩ := haccepted.mp ⟨typed, z, h⟩
      obtain ⟨hmade, hentry, hlowered, hmodules⟩ := hall typed z typed' z' h h'
      obtain ⟨m', w', hm'⟩ := hlowered.mp ⟨m, w, hm⟩
      exact ⟨p, typed, z, m, w, hp, hnames, hresults, h, hm, typed', z', m', w', h', hmade, hentry, hm',
        hmodules m w m' w' hm hm'⟩
    · cases hok
  · cases hok

end Numlet
