import Numlet.Proofs.Code.Declared

/-!
The functions of a module. A call finds the function of the host or of the program that it was checked
against.
-/
namespace Numlet

namespace Host

theorem mem_all (h : Host) : h ∈ all := by
  cases h with
  | input | inputF64 | alloc | askModel => simp [all]
  | print t => cases t <;> simp [all]

/-- The functions of the host are imported under names that differ. -/
theorem signed_target_inj {h h' : Host} (he : signed h.target = signed h'.target) : h = h' := by
  have hnd : (all.map fun h => signed h.target).Nodup := by decide +kernel
  exact List.inj_on_of_nodup_map hnd h.mem_all h'.mem_all he

theorem resolve_eq {callee : String} {h : Host} (hf : find? callee = some h) :
    resolve callee = h.target := by
  unfold resolve
  rw [hf]

theorem resolve_eq_self {callee : String} (hf : find? callee = none) : resolve callee = callee := by
  unfold resolve
  rw [hf]

end Host

/-- The first that fits, where no two fit. -/
theorem find?_eq_some_of_unique {α : Type} {P : α → Bool} {xs : List α} {a : α} (ha : a ∈ xs)
    (hP : P a = true) (hu : ∀ b ∈ xs, P b = true → b = a) : xs.find? P = some a := by
  cases hf : xs.find? P with
  | none => exact absurd hP (List.find?_eq_none.mp hf a ha)
  | some b => rw [hu b (List.mem_of_find?_eq_some hf) (List.find?_some hf)]

namespace Host

variable {α : Type} (k : Host → α)

/-- An import is found under its target, whatever is kept with it. -/
theorem find?_target {hosts : List Host} {h : Host} (hin : h ∈ hosts) :
    (hosts.map fun h => (h.target, k h)).find? (fun d => signed d.1 = signed h.target) =
      some (h.target, k h) := by
  refine find?_eq_some_of_unique (List.mem_map.mpr ⟨h, hin, rfl⟩) (by simp) fun d hd he => ?_
  obtain ⟨h', -, rfl⟩ := List.mem_map.mp hd
  rw [signed_target_inj (of_decide_eq_true he)]

/-- No import is found under the name of a function. -/
theorem find?_target_eq_none (hosts : List Host) {name : String} (hbare : bareName name = name)
    (hne : ∀ h : Host, bareName h.target ≠ name) :
    (hosts.map fun h => (h.target, k h)).find? (fun d => signed d.1 = signed name) = none := by
  rw [List.find?_eq_none]
  intro d hd he
  obtain ⟨h, -, rfl⟩ := List.mem_map.mp hd
  exact hne h ((bareName_eq_of_signed (of_decide_eq_true he)).trans hbare)

end Host

theorem WatModule.signature?_import {m : WatModule} {h : Host} (hin : h ∈ m.imports) :
    m.signature? h.target = some (h.parameters, h.result) := by
  unfold signature?
  rw [List.find?_append, Host.find?_target _ hin]
  rfl

/-- A callee that is not of the host is a function of the program, and is called by its own name. -/
theorem Typed.Program.function_of_signature? {p : Typed.Program} {callee : String}
    {signature : List NumType × Option NumType} (hs : p.signature? callee = some signature)
    (hfound : Host.find? callee = none) :
    ∃ g ∈ p.functions, g.name = callee ∧ Host.resolve callee = g.name ∧
      signature = (g.parameters.map (·.type), g.result) := by
  unfold signature? at hs
  rw [hfound] at hs
  obtain ⟨g, hg, rfl⟩ := Option.map_eq_some_iff.mp hs
  have hname : g.name = callee := by simpa using List.find?_some hg
  exact ⟨g, List.mem_of_find?_eq_some hg, hname, (Host.resolve_eq_self hfound).trans hname.symm, rfl⟩

section Program

variable {p : Program} {options : Options} {typed : Typed.Program} {z : Checker}

/-- The functions of a program have names of their own. -/
theorem ProgramRun.function_names (h : ProgramRun p options typed z) (hspelled : p.Spelled) :
    (typed.functions.map (·.name)).Nodup ∧ ∀ g ∈ typed.functions, bareName g.name = g.name ∧
      ∀ host : Host, bareName host.target ≠ g.name := by
  obtain @⟨s, ts, s₁, body, _, -, hd, hf, he⟩ := h
  have hnames := hf.names_eq
  refine ⟨hnames ▸ hd.nodup, fun g hg => ?_⟩
  have hg' : g.name ∈ p.functions.map (·.name) := hnames ▸ List.mem_map_of_mem hg
  obtain ⟨f, hfmem, hname⟩ := List.mem_map.mp hg'
  rw [← hname]
  refine ⟨bareName_of_isWord (hspelled _ ?_), fun host => (hd.names f hfmem).2.1 host host.mem_all⟩
  exact List.mem_append_left _ (List.mem_flatMap.mpr ⟨f, hfmem, List.mem_cons_self⟩)

/-- A function is found under its name, whatever is kept with it. -/
theorem ProgramRun.find?_function (h : ProgramRun p options typed z) (hspelled : p.Spelled) {α : Type}
    (k : Typed.Function → α) {g : Typed.Function} (hmem : g ∈ typed.functions) :
    (typed.functions.map fun f => (f.name, k f)).find? (fun d => signed d.1 = signed g.name) =
      some (g.name, k g) := by
  obtain ⟨hnd, hall⟩ := h.function_names hspelled
  refine find?_eq_some_of_unique (List.mem_map.mpr ⟨g, hmem, rfl⟩) (by simp) fun d hd he => ?_
  obtain ⟨g', hg', rfl⟩ := List.mem_map.mp hd
  have hsame := (signed_inj (hall g' hg').1 (hall g hmem).1).mp (of_decide_eq_true he)
  rw [List.inj_on_of_nodup_map hnd hg' hmem hsame]

/-- A call finds in the module the signature that its callee has in the program. -/
theorem ProgramRun.signature?_resolve (h : ProgramRun p options typed z) (hspelled : p.Spelled)
    {m : WatModule} (hm : m.functions = typed.forms options) {callee : String}
    {signature : List NumType × Option NumType} (hs : typed.signature? callee = some signature)
    (hhost : ∀ host, Host.find? callee = some host → host ∈ m.imports) :
    m.signature? (Host.resolve callee) = some signature := by
  cases hfound : Host.find? callee with
  | some host =>
    unfold Typed.Program.signature? at hs
    rw [hfound] at hs
    cases hs
    rw [Host.resolve_eq hfound]
    exact WatModule.signature?_import (hhost host hfound)
  | none =>
    obtain ⟨g, hmem, -, hresolve, rfl⟩ := Typed.Program.function_of_signature? hs hfound
    obtain ⟨hbare, htargets⟩ := (h.function_names hspelled).2 g hmem
    have hforms : (m.functions.map fun f => (f.name, f.parameters.map (·.type), f.result)).find?
        (fun d => signed d.1 = signed g.name) = some (g.name, g.parameters.map (·.type), g.result) := by
      rw [hm, Typed.Program.forms, List.map_append, List.map_map, List.find?_append]
      exact congrArg (Option.or · _)
        (h.find?_function hspelled (fun f => (f.parameters.map (·.type), f.result)) hmem)
    unfold WatModule.signature?
    rw [hresolve, List.find?_append, Host.find?_target_eq_none _ _ hbare htargets, hforms]
    rfl

end Program

end Numlet
