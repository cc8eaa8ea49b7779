import Numlet.Proofs.Code.Linking
import Numlet.Proofs.Code.Named
import Numlet.Proofs.Emission
import Numlet.Proofs.Meaning.Statements

/-!
Lowering keeps the meaning of a function. Its lines, run on a machine with the locals that it declares, end
as its tree does, in the same world and with the same value, for every interpretation of fractions,
conversions and calls.
-/
namespace Numlet

variable {F D W : Type}

def Host.callee (h : Host) (I : Interpretation F D W) : Callee F D W :=
  ⟨h.parameters.length, h.result.isSome, I.host h⟩

def Typed.Function.callee (f : Typed.Function) (I : Interpretation F D W) : Callee F D W :=
  ⟨f.parameters.length, f.result.isSome, I.user f.name⟩

/-- The functions that calls can be linked to: those of the host and those of the program. -/
def Typed.Program.callees (p : Typed.Program) (I : Interpretation F D W) :
    List (String × Callee F D W) :=
  Host.all.map (fun h => (h.target, h.callee I)) ++ p.functions.map fun f => (f.name, f.callee I)

/-- Calls are linked by names as they are written. -/
def Typed.Program.callee (p : Typed.Program) (I : Interpretation F D W) (target : String) :
    Option (Callee F D W) :=
  ((p.callees I).find? fun d => signed d.1 = signed target).map (·.2)

namespace FunctionForm

/-- The locals of a function when it is entered: the arguments in the parameters and zero in all others. -/
def start (f : FunctionForm) (I : Interpretation F D W) (arguments : List (Value F D)) (x : String) :
    Option (Value F D) :=
  ((f.parameters.map fun p => bareName p.name).zip arguments ++
    f.locals.map fun l => (bareName l.1, I.zero l.2)).lookup x

/-- How a call ends when the code of the function goes on as given. At its end a function leaves its
result on the stack. -/
def ending (f : FunctionForm) : Flow F D W → Ending F D W
  | .next c =>
    if f.result.isSome then
      match c.stack with
      | v :: _ => .returned (some v) c.world
      | [] => .trapped c.world
    else .returned none c.world
  | .jump _ _ w => .trapped w
  | .ret v w => .returned v w
  | .trap w => .trapped w
  | .outOfFuel => .outOfFuel

/-- A call of a function by its lines. -/
def run (f : FunctionForm) (callee : String → Option (Callee F D W)) (I : Interpretation F D W)
    (n : Nat) (arguments : List (Value F D)) (w : W) : Ending F D W :=
  match Node.ofInstrs? f.body with
  | some ns => f.ending ((Machine.mk I callee f.result.isSome).execAll ns n ⟨[], f.start I arguments, w⟩)
  | none => .trapped w

theorem ending_restrict (f : FunctionForm) (X : String → Prop) [DecidablePred X] (flow : Flow F D W) :
    f.ending (flow.restrict X) = f.ending flow := by
  cases flow <;> rfl

end FunctionForm

section Linked

variable {p : Program} {options : Options} {typed : Typed.Program} {z : Checker}

/-- A call is linked to what it means in the tree. -/
theorem ProgramRun.callee_resolve (h : ProgramRun p options typed z) (hspelled : p.Spelled)
    (I : Interpretation F D W) {callee : String} {types : List NumType} {r : Option NumType}
    (hs : typed.signature? callee = some (types, r)) :
    typed.callee I (Host.resolve callee) = some ⟨types.length, r.isSome, I.call callee⟩ := by
  unfold Typed.Program.callee Typed.Program.callees Interpretation.call
  cases hfound : Host.find? callee with
  | some host =>
    unfold Typed.Program.signature? at hs
    rw [hfound] at hs
    cases hs
    rw [Host.resolve_eq hfound, List.find?_append, Host.find?_target _ host.mem_all]
    rfl
  | none =>
    obtain ⟨g, hmem, hname, hresolve, hsignature⟩ := Typed.Program.function_of_signature? hs hfound
    cases hsignature
    obtain ⟨hbare, htargets⟩ := (h.function_names hspelled).2 g hmem
    rw [hresolve, ← hname, List.find?_append, Host.find?_target_eq_none _ _ hbare htargets,
      h.find?_function hspelled _ hmem, List.length_map]
    rfl

/-- The machine that runs the code of a function suits its tree. -/
theorem ProgramRun.suits (h : ProgramRun p options typed z) (hspelled : p.Spelled) {f : Typed.Function}
    (hf : f ∈ typed.bodies) (I : Interpretation F D W) :
    (Machine.mk I (typed.callee I) f.result.isSome).Suits (f.context typed) where
  slotType _ _ hx := h.slotType_eq hspelled hf hx
  bare _ _ hx := h.bareName_slot hspelled hf hx
  call _ _ _ hs := h.callee_resolve hspelled I hs
  print t := by
    have hs : typed.signature? (Host.print t).name = some ([t], none) := by
      unfold Typed.Program.signature?
      cases t <;> rfl
    refine (h.callee_resolve hspelled I hs).trans ?_
    cases t <;> rfl
  result := rfl

/-- No slot of the code begins with a sign. -/
theorem ProgramRun.bareName_entry (h : ProgramRun p options typed z) (hspelled : p.Spelled)
    {f : Typed.Function} (hf : f ∈ typed.bodies) :
    ∀ y ∈ (f.slots typed).entries.map (·.1), bareName y = y := by
  intro y hy
  obtain ⟨body, hsource⟩ := h.source f hf
  obtain ⟨new, he, hnew⟩ := (f.after_slots typed).entries
  rw [he, List.map_append, List.mem_append] at hy
  obtain hy | hy := hy
  · have hparam : y ∈ f.parameters.map (·.name) := by simpa [Slots.ofParameters] using hy
    exact bareName_of_isWord (hspelled y (hsource.names y (List.mem_append_left _ hparam)))
  · obtain ⟨e, he, rfl⟩ := List.mem_map.mp hy
    obtain ⟨-, i, hi, hx⟩ := hnew e he
    obtain ⟨t, ht⟩ := Typed.Function.storage_of_named (h.sound f hf)
      (List.mem_filterMap.mpr ⟨i, hi, hx⟩)
    exact h.bareName_slot hspelled hf ht

/-- Locals that hold what their declarations say. -/
theorem lookup_map_eq {α : Type} {entries : List (String × NumType)} {g : NumType → α} {h : String → α}
    (hg : ∀ e ∈ entries, g e.2 = h e.1) (x : String) :
    (entries.map fun e => (e.1, g e.2)).lookup x =
      if x ∈ entries.map (·.1) then some (h x) else none := by
  induction entries with
  | nil => rfl
  | cons e entries ih =>
    rw [List.forall_mem_cons] at hg
    rw [List.map_cons, List.lookup_cons, ih hg.2, List.map_cons]
    by_cases hx : x = e.1
    · subst hx
      simp [hg.1]
    · have hne : (x == e.1) = false := by simpa using hx
      simp only [hne, List.mem_cons, hx, false_or]

theorem lookup_zip {α : Type} {names : List String} {values : List α} (h : values.length = names.length)
    (x : String) : ((names.zip values).lookup x).isSome = decide (x ∈ names) := by
  induction names generalizing values with
  | nil => rfl
  | cons name names ih =>
    cases values with
    | nil => cases h
    | cons v values =>
      rw [List.zip_cons_cons, List.lookup_cons]
      by_cases hx : x = name
      · simp [hx]
      · have hne : (x == name) = false := by simpa using hx
        rw [hne, ih (Nat.succ.inj h)]
        simp [hx]

/-- A function is entered with the locals of its tree, as far as it declares them. -/
theorem ProgramRun.start_eq (h : ProgramRun p options typed z) (hspelled : p.Spelled) {f : Typed.Function}
    (hf : f ∈ typed.bodies) (I : Interpretation F D W) {arguments : List (Value F D)}
    (hlength : arguments.length = f.parameters.length) (exportName : Option String) :
    (f.form typed exportName).start I arguments =
      restrict (· ∈ (f.slots typed).entries.map (·.1)) fun x => some (f.start I arguments x) := by
  obtain ⟨new, he, hnew⟩ := (f.after_slots typed).entries
  have hbare := h.bareName_entry hspelled hf
  have hdeclared : (f.form typed exportName).declared = (f.slots typed).entries :=
    Typed.Function.declared_form
  have hlocals : (f.form typed exportName).locals = new := by
    rw [he] at hdeclared
    exact List.append_cancel_left hdeclared
  rw [he, List.map_append, List.forall_mem_append] at hbare
  have hparameters : f.parameters.map (fun q => bareName q.name) = f.parameters.map (·.name) := by
    refine List.map_congr_left fun q hq => hbare.1 _ ?_
    simpa [Slots.ofParameters] using ⟨q, hq, rfl⟩
  have hothers : new.map (fun l => (bareName l.1, (I.zero l.2 : Value F D))) =
      new.map fun l => (l.1, I.zero l.2) := by
    refine List.map_congr_left fun l hl => ?_
    rw [hbare.2 l.1 (List.mem_map_of_mem hl)]
  funext x
  have hstart : (f.form typed exportName).start I arguments x =
      (((f.parameters.map (·.name)).zip arguments).lookup x).or
        (if x ∈ new.map (·.1) then some (I.zero ((f.storage.find? x).getD .i32)) else none) := by
    unfold FunctionForm.start
    rw [hlocals, hothers, List.lookup_append, lookup_map_eq (h := fun x =>
      I.zero ((f.storage.find? x).getD .i32)) fun e he => congrArg I.zero (hnew e he).1, ← hparameters]
    rfl
  have hnamed : arguments.length = (f.parameters.map (·.name)).length := by
    rw [hlength, List.length_map]
  have hsome := lookup_zip hnamed x
  have hnames : (Slots.ofParameters f.parameters).entries.map (·.1) = f.parameters.map (·.name) := by
    simp [Slots.ofParameters]
  rw [hstart]
  simp only [restrict, he, List.map_append, List.mem_append, hnames, Typed.Function.start]
  cases hv : ((f.parameters.map (·.name)).zip arguments).lookup x with
  | some v =>
    rw [hv] at hsome
    have hx : x ∈ f.parameters.map (·.name) := of_decide_eq_true hsome.symm
    exact (if_pos (.inl hx)).symm
  | none =>
    rw [hv] at hsome
    have hx : x ∉ f.parameters.map (·.name) := of_decide_eq_false hsome.symm
    rw [Option.none_or]
    exact if_congr (by simp only [hx, false_or]) rfl rfl

/-- The code of a function names only locals that it declares. -/
theorem ProgramRun.within_entries (h : ProgramRun p options typed z) (hspelled : p.Spelled)
    {f : Typed.Function} (hf : f ∈ typed.bodies) :
    Node.Within (· ∈ (f.slots typed).entries.map (·.1)) (f.nodes typed) := by
  intro i hi x hx
  have hmem := (f.after_slots typed).named i hi x hx
  rwa [h.bareName_entry hspelled hf x hmem]

/-- The nodes of a function end as its tree does. -/
theorem ProgramRun.ending_nodes (h : ProgramRun p options typed z) (hspelled : p.Spelled)
    {f : Typed.Function} (hf : f ∈ typed.bodies)
    (ha : Coercion.firstRefusal (f.coercions typed) = none) (I : Interpretation F D W) (n : Nat)
    (arguments : List (Value F D)) (w : W) (exportName : Option String) :
    (f.form typed exportName).ending
        ((Machine.mk I (typed.callee I) f.result.isSome).execAll (f.nodes typed) n
          (Store.config ⟨f.start I arguments, w⟩ [])) =
      f.run typed I n arguments w := by
  have hout : false = true → 0 < 0 := fun hin => (nomatch hin)
  have hbody := Typed.Context.stmtsNodes_follows f.body (h.suits hspelled hf I) (h.sound f hf) ha hout n
    ⟨f.start I arguments, w⟩
  rw [Typed.Function.nodes, Machine.execAll_append, hbody]
  unfold Typed.Function.run
  cases (f.context typed).runAll I f.body n ⟨f.start I arguments, w⟩ with
  | normal s =>
    change FunctionForm.ending _ (Machine.execAll _ f.endNodes n (s.config [])) = _
    unfold Typed.Function.endNodes FunctionForm.ending Typed.Function.form
    cases f.result with
    | none => rfl
    | some r => cases !f.body.getLast?.any Typed.Stmt.isReturn <;> rfl
  | broke | continued | returned | trapped | outOfFuel => rfl

end Linked

/-- The code of a function, with the locals that it declares, does what the function means: for every
interpretation, every number of rounds that loops may take and all arguments, a call of the lines ends as
a call of the tree does. -/
theorem lowered_code_runs_as_tree {p : Program} {options : Options} {typed : Typed.Program} {z : Checker}
    (hp : p.Spelled ∨ ∃ source file, Program.ofSource source file = .ok p)
    (hc : p.check options = .ok typed z) {f : Typed.Function} (hf : f ∈ typed.bodies)
    {s s' : Emitter} (hs : s.program = typed) {code : List Instr}
    (hl : Lowering.lowerBody f s = .ok code s') :
    ∀ {F D W : Type} (I : Interpretation F D W) (n : Nat) (arguments : List (Value F D)) (w : W),
      arguments.length = f.parameters.length →
        FunctionForm.run ⟨f.name, none, f.parameters, f.result,
            s'.slots.locals.map fun l => (l.1, l.2.type), code⟩ (typed.callee I) I n arguments w =
          f.run typed I n arguments w := by
  have hspelled : p.Spelled := by
    obtain hp | ⟨source, file, hp⟩ := hp
    · exact hp
    · exact Program.spelled_of_source hp
  have hrun := ProgramRun.of_check hc
  have hbody := Lowering.lowerBody_run (s := s) (hs ▸ hrun.lowerable f hf)
  rw [hs] at hbody
  cases ha : Coercion.firstRefusal (f.coercions typed) with
  | some d =>
    rw [ha] at hbody
    obtain ⟨z', hz'⟩ := hbody
    cases hl.symm.trans hz'
  | none =>
    rw [ha] at hbody
    obtain ⟨z', hz', -, hslots, -⟩ := hbody
    cases hl.symm.trans hz'
    intro F D W I n arguments w hlength
    rw [hslots]
    change FunctionForm.run (f.form typed none) (typed.callee I) I n arguments w = _
    have hread : Node.ofInstrs? (f.form typed none).body = some (f.nodes typed) :=
      Node.ofInstrs?_flatten _
    unfold FunctionForm.run
    rw [hread, hrun.start_eq hspelled hf I hlength none]
    refine Eq.trans ?_ (hrun.ending_nodes hspelled hf ha I n arguments w none)
    rw [← FunctionForm.ending_restrict _ (· ∈ (f.slots typed).entries.map (·.1)),
      ← Machine.execAll_restrict _ _ (hrun.within_entries hspelled hf)]
    rfl

/-- An interpretation that knows no fractions and in which every call is told to the world. -/
def Interpretation.telling : Interpretation Unit Unit (List (Value Unit Unit)) where
  f32 := ⟨fun _ => (), fun _ _ _ => (), fun _ _ _ => false⟩
  f64 := ⟨fun _ => (), fun _ _ _ => (), fun _ _ _ => false⟩
  convert _ _ v := some v
  host _ arguments w := .ok (.i32 0, w ++ arguments)
  user _ arguments w := .ok (.i32 0, w ++ arguments)

/-- A loop with a continue, a break and a print: the odd numbers below six are printed and added. -/
theorem lowered_loop_runs_as_tree :
    ∃ p typed z f s' code, Program.ofSource ("fn odd(n) \x7b let sum = 0; " ++
        "for (let i = 0; i < n; i++) \x7b if (i > 6) \x7b break; \x7d " ++
        "if (i % 2 == 0) \x7b continue; \x7d print(i); sum = sum + i; \x7d return sum; \x7d") "" = .ok p ∧
      p.check {} = .ok typed z ∧ f ∈ typed.bodies ∧
      Lowering.lowerBody f { program := typed } = .ok code s' ∧
      FunctionForm.run ⟨f.name, none, f.parameters, f.result,
          s'.slots.locals.map fun l => (l.1, l.2.type), code⟩
          (typed.callee .telling) .telling 20 [.i32 100] [] =
        .returned (some (.i32 9)) [.i32 1, .i32 3, .i32 5] := by
  obtain ⟨typed, hsource, f, hf, ha, hlength, hends⟩ := exists_ok_of_decide
    (P := fun typed : Typed.Program => ∃ f ∈ typed.functions,
      (Coercion.firstRefusal (f.coercions typed)).isNone = true ∧ f.parameters.length = 1 ∧
      f.run typed .telling 20 [.i32 100] [] = .returned (some (.i32 9)) [.i32 1, .i32 3, .i32 5])
    (x := checkSource ("fn odd(n) \x7b let sum = 0; " ++
        "for (let i = 0; i < n; i++) \x7b if (i > 6) \x7b break; \x7d " ++
        "if (i % 2 == 0) \x7b continue; \x7d print(i); sum = sum + i; \x7d return sum; \x7d") "" {})
    (by decide +kernel)
  obtain ⟨p, z, hp, hc⟩ := checkSource_eq_ok.mp hsource
  have hbody : f ∈ typed.bodies := List.mem_append_left _ hf
  have hlower := Lowering.lowerBody_run (s := { program := typed })
    ((ProgramRun.of_check hc).lowerable f hbody)
  rw [show Coercion.firstRefusal (f.coercions typed) = none from Option.isNone_iff_eq_none.mp ha] at hlower
  obtain ⟨s', hl, -⟩ := hlower
  refine ⟨p, typed, z, f, s', _, hp, hc, hbody, hl, ?_⟩
  rw [← hends]
  exact lowered_code_runs_as_tree (.inr ⟨_, _, hp⟩) hc hbody rfl hl .telling 20 [.i32 100] [] hlength.symm

/-- Two variables whose names differ by a sign only. -/
def signedTwins : Program :=
  let span := Span.ofLength "" 0 0
  ⟨[], [.declare "x" none (some (.literal (.int 1) span)) span,
    .declare "$x" none (some (.literal (.int 2) span)) span, .print (.var "x" span) span], span⟩

/-- Names that differ by a sign only share a local in the code: what is stored under one of them is read
under the other. -/
theorem lowered_code_mixes_signed_names :
    ∃ typed z code s', signedTwins.check {} = .ok typed z ∧
      Lowering.lowerBody typed.entry { program := typed } = .ok code s' ∧
      FunctionForm.run ⟨typed.entry.name, none, typed.entry.parameters, typed.entry.result,
          s'.slots.locals.map fun l => (l.1, l.2.type), code⟩
          (typed.callee .telling) .telling 0 [] [] = .returned none [.i32 2] ∧
      typed.entry.run typed .telling 0 [] [] = .returned none [.i32 1] := by
  obtain ⟨typed, z, hc, hl⟩ := exists_run_of_decide (x := signedTwins.check {})
    (P := fun typed _ => (match Lowering.lowerBody typed.entry { program := typed } with
      | .ok code s' => decide (FunctionForm.run ⟨typed.entry.name, none, typed.entry.parameters,
            typed.entry.result, s'.slots.locals.map fun l => (l.1, l.2.type), code⟩
            (typed.callee .telling) .telling 0 [] [] = .returned none [.i32 2] ∧
          typed.entry.run typed .telling 0 [] [] = .returned none [.i32 1])
      | .error _ _ => false) = true) (by decide +kernel)
  cases hrun : Lowering.lowerBody typed.entry { program := typed } with
  | error d s' =>
    rw [hrun] at hl
    cases hl
  | ok code s' =>
    rw [hrun] at hl
    exact ⟨typed, z, code, s', hc, hrun, of_decide_eq_true hl⟩

end Numlet
