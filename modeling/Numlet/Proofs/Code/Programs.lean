import Numlet.Proofs.Code.Statements

/-!
Lowering of functions and programs. A function becomes a form with the code of its body, in which every
local that is no parameter is declared as it was first touched. A program is refused for the first
coercion of its bodies that cannot be written and for nothing else.
-/
namespace Numlet

namespace Slots

/-- The slots at the start of a body. -/
def ofParameters (ps : List Typed.Parameter) : Slots :=
  ⟨ps.map fun p => (p.name, p.type), ps.length⟩

theorem findFrom_eq_none_iff {name : String} {i : Nat} {entries : List (String × NumType)} :
    findFrom name i entries = none ↔ name ∉ entries.map (·.1) := by
  induction entries generalizing i with
  | nil => simp [findFrom]
  | cons e entries ih =>
    rw [findFrom, List.map_cons, List.mem_cons, not_or, ← @ih (i + 1)]
    split
    · next h => simp [h]
    · next h => simp [Ne.symm h]

theorem map_type_findFrom (ps : List Typed.Parameter) (name : String) (i : Nat) :
    (findFrom name i (ps.map fun p => (p.name, p.type))).map (·.type) =
      (ps.find? (·.name == name)).map (·.type) := by
  induction ps generalizing i with
  | nil => rfl
  | cons p ps ih =>
    rw [List.map_cons, findFrom, List.find?_cons]
    by_cases h : p.name = name
    · simp [h]
    · have hne : (p.name == name) = false := by simpa using h
      rw [if_neg h, hne]
      exact ih (i + 1)

theorem foldl_addParameter (done ps : List Typed.Parameter)
    (h : ((done ++ ps).map (·.name)).Nodup) :
    ps.foldl (fun s p => (s.addParameter p.name p.type).2) (ofParameters done) =
      ofParameters (done ++ ps) := by
  induction ps generalizing done with
  | nil => rw [List.foldl_nil, List.append_nil]
  | cons p ps ih =>
    have hnone : (ofParameters done).find? p.name = none := by
      rw [find?, findFrom_eq_none_iff, ofParameters, List.map_map]
      intro hin
      rw [List.map_append, List.nodup_append] at h
      exact h.2.2 p.name hin p.name (by simp) rfl
    have hstep : ((ofParameters done).addParameter p.name p.type).2 = ofParameters (done ++ [p]) := by
      unfold addParameter alloc
      rw [hnone]
      simp [ofParameters]
    rw [List.foldl_cons, hstep, ih (done ++ [p]) (by simpa using h), List.append_assoc]
    rfl

end Slots

namespace Lowering

theorem parameters_run (ps : List Typed.Parameter) (s : Emitter) :
    ∃ log, (ps.forM fun p => (discard (addParameter p.name p.type) : Lowering PUnit)) s =
      .ok ⟨⟩ { s with
        slots := ps.foldl (fun s p => (s.addParameter p.name p.type).2) s.slots, log := log } := by
  induction ps generalizing s with
  | nil => exact ⟨s.log, rfl⟩
  | cons p ps ih =>
    have hfirst : ∃ slot log, addParameter p.name p.type s =
        .ok slot { s with slots := (s.slots.addParameter p.name p.type).2, log := log } := by
      unfold addParameter changeSlots
      rw [bind_of_ok (get_eq_ok.mpr ⟨rfl, rfl⟩)]
      cases (s.slots.find? p.name).isNone with
      | true => exact ⟨_, _, rfl⟩
      | false => exact ⟨_, s.log, rfl⟩
    obtain ⟨slot, log, hslot⟩ := hfirst
    obtain ⟨log', hrest⟩ :=
      ih { s with slots := (s.slots.addParameter p.name p.type).2, log := log }
    exact ⟨log', (bind_of_ok (map_eq_ok.mpr ⟨slot, hslot, rfl⟩)).trans hrest⟩

end Lowering

namespace Typed

/-- What lowering needs of a function: a sound body and parameters that differ. -/
structure Function.Lowerable (f : Function) (p : Program) : Prop where
  sound : (f.context p).SoundStmts false f.body
  parameters : (f.parameters.map (·.name)).Nodup

/-- The coercions in the code of a function. -/
def Function.coercions (f : Function) (p : Program) : List Coercion :=
  (f.context p).stmtsCoercions f.body

/-- The functions of the host that a function calls. -/
def Function.hosts (f : Function) : List Host :=
  Typed.hosts (exprsOfStmts f.body) ++ stmtHosts (partsOfStmts f.body)

def Function.code (f : Function) (p : Program) : List Instr := Node.flatten (f.nodes p)

/-- The slots at the end of a body. -/
def Function.slots (f : Function) (p : Program) : Slots :=
  (f.code p).foldl (Slots.touch f.storage) (Slots.ofParameters f.parameters)

def Function.form (f : Function) (p : Program) (exportName : Option String) : FunctionForm :=
  ⟨f.name, exportName, f.parameters, f.result, (f.slots p).locals.map fun l => (l.1, l.2.type),
    f.code p⟩

/-- A lowering at the start of a body. -/
theorem Function.ready (f : Function) {s : Emitter} (hslots : s.slots = Slots.ofParameters f.parameters)
    (hstorage : s.storage = f.storage) (hresult : s.result = f.result) :
    s.Ready (f.context s.program) where
  slotType x t hx := by
    unfold Emitter.slotType
    rw [hslots, hstorage, Slots.find?, Slots.ofParameters, Slots.map_type_findFrom]
    change f.storage.find? x = some t at hx
    change _ = some (f.slotType x)
    unfold Function.slotType
    rw [hx]
    cases (f.parameters.find? (·.name == x)).map (·.type) <;> rfl
  results callee types r hc := by
    change s.program.signature? callee = some (types, r) at hc
    unfold Program.signature? at hc
    cases hh : Host.find? callee with
    | some host =>
      rw [hh] at hc
      cases hc
      rfl
    | none =>
      rw [hh] at hc
      obtain ⟨g, hg, hpair⟩ := Option.map_eq_some_iff.mp hc
      cases hpair
      have hfound : s.program.find? callee = some g := by
        unfold Program.find?
        rw [List.find?_append, hg]
        rfl
      simp [hfound]
  result := hresult

end Typed

namespace Lowering
open Coercion (firstRefusal)

/-- The statements of a body and what stands after them. -/
def lowerAll (f : Typed.Function) : Lowering Unit := do
  lowerStmts f.body
  if f.result.isSome && !f.body.getLast?.any Typed.Stmt.isReturn then emit .unreachable

theorem lowerAll_does {f : Typed.Function} {s : Emitter} (h : f.Lowerable s.program)
    (hs : s.Before (f.context s.program) false 0 0) :
    Does (lowerAll f) s (firstRefusal (f.coercions s.program)) (f.code s.program)
      (Typed.loopCountAll f.body) f.hosts := by
  have hend : ∀ s : Emitter, Does
      (if f.result.isSome && !f.body.getLast?.any Typed.Stmt.isReturn then emit .unreachable else pure ())
      s none (Node.flatten f.endNodes) 0 [] := by
    intro s
    unfold Typed.Function.endNodes
    split
    · exact emit_does rfl
    · exact .of_pure () s
  refine ((lowerStmts_does f.body h.sound hs).bind fun _ s₁ _ => hend s₁).congr ?_ ?_ rfl ?_
  · simp [Typed.Function.coercions]
  · simp [Typed.Function.code, Typed.Function.nodes]
  · simp [Typed.Function.hosts]

/-- The state before the statements of a body. -/
def atBody (f : Typed.Function) (s : Emitter) (log : Array Event) : Emitter where
  program := s.program
  usedHosts := s.usedHosts
  slots := .ofParameters f.parameters
  storage := f.storage
  result := f.result
  log := log

theorem lowerBody_eq (f : Typed.Function) (h : (f.parameters.map (·.name)).Nodup) (s : Emitter) :
    ∃ log, lowerBody f s =
      (lowerAll f >>= fun _ => modifyGet fun s => (s.output.toList, { s with output := #[] }))
        (atBody f s log) := by
  obtain ⟨log, hparameters⟩ := parameters_run f.parameters
    { program := s.program, usedHosts := s.usedHosts, storage := f.storage, result := f.result,
      log := s.log }
  have hslots : f.parameters.foldl (fun s p => (s.addParameter p.name p.type).2) {} =
      Slots.ofParameters f.parameters := Slots.foldl_addParameter [] f.parameters h
  simp only [hslots] at hparameters
  refine ⟨log, ?_⟩
  unfold lowerBody lowerAll
  rw [bind_of_ok ((modify_eq_ok (u := ⟨⟩)).mpr rfl), bind_of_ok hparameters, bind_assoc]
  cases f.result.isSome && !f.body.getLast?.any Typed.Stmt.isReturn <;> rfl

/-- The body of a function either is refused or becomes its code. -/
theorem lowerBody_run {f : Typed.Function} {s : Emitter} (h : f.Lowerable s.program) :
    match firstRefusal (f.coercions s.program) with
    | some d => ∃ s', lowerBody f s = .error d s'
    | none => ∃ s', lowerBody f s = .ok (f.code s.program) s' ∧ s'.program = s.program ∧
        s'.slots = f.slots s.program ∧
        ∀ host, host ∈ s'.usedHosts ↔ host ∈ s.usedHosts ∨ host ∈ f.hosts := by
  obtain ⟨log, hrun⟩ := lowerBody_eq f h.parameters s
  have hdoes : Does (lowerAll f) (atBody f s log) (firstRefusal (f.coercions s.program))
      (f.code s.program) (Typed.loopCountAll f.body) f.hosts :=
    lowerAll_does h ⟨f.ready rfl rfl rfl, fun hin => (nomatch hin), rfl⟩
  cases hr : firstRefusal (f.coercions s.program) with
  | some d =>
    rw [hr] at hdoes
    obtain ⟨s', hs'⟩ := hdoes
    exact ⟨s', hrun.trans (bind_of_error hs')⟩
  | none =>
    rw [hr] at hdoes
    obtain ⟨_, s', hs', hw⟩ := hdoes
    refine ⟨{ s' with output := #[] }, ?_, hw.program, hw.slots, hw.hosts⟩
    have hout : s'.output.toList = f.code s.program := hw.output
    rw [hrun, bind_of_ok hs', ← hout]
    rfl

/-- The outcome of a computation that gives a value and remembers the host's functions. -/
def Gives {α : Type} (m : Lowering α) (s : Emitter) (refusal : Option Diagnostic) (a : α)
    (called : List Host) : Prop :=
  match refusal with
  | none => ∃ s', m s = .ok a s' ∧ s'.program = s.program ∧
      ∀ h, h ∈ s'.usedHosts ↔ h ∈ s.usedHosts ∨ h ∈ called
  | some d => ∃ s', m s = .error d s'

theorem Gives.of_pure {α : Type} (a : α) (s : Emitter) : Gives (pure a) s none a [] :=
  ⟨s, rfl, rfl, fun _ => by simp⟩

theorem Gives.bind {α β : Type} {m : Lowering α} {k : α → Lowering β} {s : Emitter}
    {r₁ r₂ : Option Diagnostic} {a : α} {b : β} {called₁ called₂ : List Host}
    (h₁ : Gives m s r₁ a called₁)
    (h₂ : ∀ s', s'.program = s.program → Gives (k a) s' r₂ b called₂) :
    Gives (m >>= k) s (r₁.or r₂) b (called₁ ++ called₂) := by
  cases r₁ with
  | some d =>
    obtain ⟨s₁, hm⟩ := h₁
    exact ⟨s₁, bind_of_error hm⟩
  | none =>
    obtain ⟨s₁, hm, hp, hh⟩ := h₁
    have hk := h₂ s₁ hp
    cases r₂ with
    | some d =>
      obtain ⟨s₂, hk⟩ := hk
      exact ⟨s₂, (bind_of_ok hm).trans hk⟩
    | none =>
      obtain ⟨s₂, hk, hp', hh'⟩ := hk
      refine ⟨s₂, (bind_of_ok hm).trans hk, hp'.trans hp, fun host => ?_⟩
      rw [hh', hh, List.mem_append, or_assoc]

theorem lowerFunction_gives {f : Typed.Function} {p : Typed.Program} {s : Emitter} (hs : s.program = p)
    (h : f.Lowerable p) (exportName : Option String) :
    Gives (lowerFunction f exportName) s (firstRefusal (f.coercions p)) (f.form p exportName)
      f.hosts := by
  subst hs
  have hbody := lowerBody_run (s := { s with log := s.log.push (.lowering f.name) }) h
  cases hr : firstRefusal (f.coercions s.program) with
  | some d =>
    rw [hr] at hbody
    obtain ⟨s', hs'⟩ := hbody
    exact ⟨s', (bind_of_ok rfl).trans (bind_of_error hs')⟩
  | none =>
    rw [hr] at hbody
    obtain ⟨s', hs', hp, hslots, hh⟩ := hbody
    refine ⟨{ s' with log := s'.log.push (.lowered f.name
      (f.parameters.length + s'.slots.locals.length) (f.code s.program).length) }, ?_, hp, hh⟩
    refine (bind_of_ok rfl).trans ((bind_of_ok hs').trans ?_)
    unfold Typed.Function.form
    rw [← hslots]
    rfl

theorem lowerFunctions_gives {fs : List Typed.Function} {p : Typed.Program} {s : Emitter}
    (hs : s.program = p) (h : ∀ f ∈ fs, f.Lowerable p) (exported : Bool) :
    Gives (lowerFunctions exported fs) s (firstRefusal (fs.flatMap (·.coercions p)))
      (fs.map fun f => f.form p (if exported then some f.name else none)) (fs.flatMap (·.hosts)) := by
  induction fs generalizing s with
  | nil => exact .of_pure [] s
  | cons f fs ih =>
    rw [List.forall_mem_cons] at h
    have hall : Gives (lowerFunction f (if exported then some f.name else none) >>= fun form =>
        lowerFunctions exported fs >>= fun forms => pure (form :: forms)) s _ _ _ :=
      (lowerFunction_gives hs h.1 _).bind fun s₁ hp =>
        (ih (hp.trans hs) h.2).bind fun s₂ _ => .of_pure _ s₂
    rw [Option.or_none, List.append_nil] at hall
    rw [List.flatMap_cons, Coercion.firstRefusal_append, List.map_cons, List.flatMap_cons]
    exact hall

end Lowering

namespace Typed

/-- The coercions in the code of a program. -/
def Program.coercions (p : Program) : List Coercion := p.bodies.flatMap (·.coercions p)

def Program.forms (p : Program) (options : Options) : List FunctionForm :=
  (p.functions.map fun f => f.form p (if options.exportFunctions then some f.name else none)) ++
    [p.entry.form p (some options.entryName)]

/-- A program is lowered to its forms, with the functions of the host that it calls, unless one of its
coercions is refused. -/
theorem Program.lower_run {p : Program} (h : ∀ f ∈ p.bodies, f.Lowerable p) (options : Options) :
    match Coercion.firstRefusal p.coercions with
    | some d => ∃ z, p.lower options = .error d z
    | none => ∃ imports z, p.lower options = .ok ⟨imports, p.forms options⟩ z ∧
        imports = Host.all.filter fun host => p.bodies.any (·.hosts.contains host) := by
  rw [bodies, List.forall_mem_append, List.forall_mem_singleton] at h
  have hforms : Lowering.Gives (Lowering.lowerFunctions options.exportFunctions p.functions >>= fun forms =>
      Lowering.lowerFunction p.entry (some options.entryName) >>= fun form => pure (forms ++ [form]))
      { program := p } _ _ _ :=
    (Lowering.lowerFunctions_gives rfl h.1 options.exportFunctions).bind fun s₁ hp =>
      (Lowering.lowerFunction_gives hp h.2 _).bind fun s₂ _ => .of_pure _ s₂
  have hlower : p.lower options =
      ((Lowering.lowerFunctions options.exportFunctions p.functions >>= fun forms =>
        Lowering.lowerFunction p.entry (some options.entryName) >>= fun form => pure (forms ++ [form])) >>=
        fun forms => get >>= fun s => pure ⟨Lowering.imports s, forms⟩) { program := p } := by
    rw [bind_assoc]
    simp only [bind_assoc, pure_bind]
    rfl
  have hcoercions : p.coercions = p.functions.flatMap (·.coercions p) ++ p.entry.coercions p := by
    simp [coercions, bodies]
  rw [Option.or_none, List.append_nil, ← Coercion.firstRefusal_append, ← hcoercions] at hforms
  cases hr : Coercion.firstRefusal p.coercions with
  | some d =>
    rw [hr] at hforms
    obtain ⟨z, hz⟩ := hforms
    exact ⟨z, hlower.trans (bind_of_error hz)⟩
  | none =>
    rw [hr] at hforms
    obtain ⟨z, hz, -, hhosts⟩ := hforms
    refine ⟨Lowering.imports z, z, hlower.trans (bind_of_ok hz), ?_⟩
    unfold Lowering.imports
    refine List.filter_congr fun host _ => ?_
    rw [Bool.eq_iff_iff, List.contains_iff_mem, hhosts, bodies, List.any_append]
    simp

/-- What a program has been lowered to. -/
theorem Program.of_lower {p : Program} (h : ∀ f ∈ p.bodies, f.Lowerable p) {options : Options}
    {m : WatModule} {z : Emitter} (hl : p.lower options = .ok m z) :
    Coercion.firstRefusal p.coercions = none ∧ m.functions = p.forms options ∧
      m.imports = Host.all.filter fun host => p.bodies.any (·.hosts.contains host) := by
  have hrun := p.lower_run h options
  cases hr : Coercion.firstRefusal p.coercions with
  | some d =>
    rw [hr] at hrun
    obtain ⟨z', hz'⟩ := hrun
    cases hl.symm.trans hz'
  | none =>
    rw [hr] at hrun
    obtain ⟨imports, z', hz', hhosts⟩ := hrun
    cases hl.symm.trans hz'
    exact ⟨rfl, rfl, hhosts⟩

end Typed

end Numlet
