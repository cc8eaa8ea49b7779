import Numlet.Proofs.Code.Linking
import Numlet.Proofs.Tree.Spelled

/-!
The names of the functions of a module. Imports and the functions of a program never share a name, and
neither do two exports. The entry function is named by the options, and it shares its name only with a
function of the host, if that is imported.
-/
namespace Numlet

/-- What the functions of a module are called by in its code, imports first. -/
def WatModule.identifiers (m : WatModule) : List String :=
  m.imports.map (fun h => signed h.target) ++ m.functions.map (fun f => signed f.name)

/-- What the functions of a module are known by outside. -/
def WatModule.exports (m : WatModule) : List String := m.functions.filterMap (·.exportName)

theorem compileSource_eq_ok {source file text : String} {options : Options} :
    compileSource source file options = .ok text ↔
      ∃ typed m z, checkSource source file options = .ok typed ∧ typed.lower options = .ok m z ∧
        m.text = text := by
  unfold compileSource
  cases hc : checkSource source file options with
  | error d =>
    refine ⟨fun h => (by cases h), ?_⟩
    rintro ⟨typed, m, z, h, -⟩
    cases h
  | ok typed =>
    change (answer (typed.lower options) >>= fun m => Except.ok m.text) = .ok text ↔ _
    cases hl : typed.lower options with
    | error d z =>
      refine ⟨fun h => (by cases h), ?_⟩
      rintro ⟨typed', m, z', ⟨⟩, h, -⟩
      cases hl.symm.trans h
    | ok m z =>
      refine ⟨fun h => ⟨typed, m, z, rfl, hl, Except.ok.inj h⟩, ?_⟩
      rintro ⟨typed', m', z', ⟨⟩, h, htext⟩
      cases hl.symm.trans h
      exact congrArg Except.ok htext

/-- A module that is evaluated and found to have a property. -/
theorem exists_module_of_decide (source file : String) (options : Options) {P : WatModule → Prop}
    [DecidablePred P]
    (h : (match checkSource source file options with
      | .ok typed => (match typed.lower options with
        | .ok m _ => decide (P m)
        | .error _ _ => false)
      | .error _ => false) = true) :
    ∃ typed m z, checkSource source file options = .ok typed ∧ typed.lower options = .ok m z ∧ P m := by
  cases hc : checkSource source file options with
  | error d =>
    rw [hc] at h
    cases h
  | ok typed =>
    rw [hc] at h
    cases hl : typed.lower options with
    | error d z =>
      simp only [hl] at h
      cases h
    | ok m z =>
      simp only [hl] at h
      exact ⟨typed, m, z, rfl, hl, of_decide_eq_true h⟩

/-- Nothing but the functions of the host is imported, each at most once. -/
theorem Typed.Program.imports_sublist {p : Typed.Program} {options : Options} {m : WatModule}
    {z : Emitter} (h : p.lower options = .ok m z) : m.imports.Sublist Host.all := by
  obtain ⟨s, s₁, -, k⟩ := bind_eq_ok.mp h
  obtain ⟨functions, s₂, -, k₁⟩ := bind_eq_ok.mp k
  obtain ⟨entry, s₃, -, k₂⟩ := bind_eq_ok.mp k₁
  obtain ⟨s₄, s₅, -, k₃⟩ := bind_eq_ok.mp k₂
  cases k₃
  exact List.filter_sublist

section Entry

variable {p : Program} {options : Options} {typed : Typed.Program} {z : Checker}

/-- The entry function has the name of the options, and no other function of the program has it. -/
theorem ProgramRun.entry_name (h : ProgramRun p options typed z) :
    typed.entry.name = options.entryName ∧ Text.isWord options.entryName = true ∧
      ∀ g ∈ typed.functions, g.name ≠ options.entryName := by
  obtain @⟨s, ts, s₁, body, _, hw, hd, hf, -⟩ := h
  have hoptions : s₁.options = options := hf.options_eq.trans hd.rest.2
  refine ⟨congrArg Options.entryName hoptions, hw, fun g hg => ?_⟩
  have hname : g.name ∈ p.functions.map (·.name) := hf.names_eq ▸ List.mem_map_of_mem hg
  obtain ⟨f, hfmem, hfname⟩ := List.mem_map.mp hname
  rw [← hfname]
  exact (hd.names f hfmem).1

/-- The names of imports and of the functions of a program are distinct. -/
theorem ProgramRun.nodup_identifiers (h : ProgramRun p options typed z) (hspelled : p.Spelled)
    {imports : List Host} (hi : imports.Sublist Host.all) :
    (imports.map (fun h => signed h.target) ++ typed.functions.map (fun f => signed f.name)).Nodup := by
  obtain ⟨hnd, hall⟩ := h.function_names hspelled
  have hhosts : (Host.all.map fun h => signed h.target).Nodup := by decide +kernel
  have hfunctions : (typed.functions.map fun f => signed f.name).Nodup := by
    refine List.Nodup.map_on ?_ (List.Nodup.of_map _ hnd)
    intro f hf g hg heq
    exact List.inj_on_of_nodup_map hnd hf hg ((signed_inj (hall f hf).1 (hall g hg).1).mp heq)
  -- An import that is written like a function has its bare name, and such functions are refused.
  refine List.Nodup.append (hhosts.sublist (hi.map _)) hfunctions fun x hx hx' => ?_
  obtain ⟨host, -, rfl⟩ := List.mem_map.mp hx
  obtain ⟨f, hf, heq⟩ := List.mem_map.mp hx'
  have hsame := bareName_eq_of_signed heq
  rw [(hall f hf).1] at hsame
  exact (hall f hf).2 host hsame.symm

/-- The name of the entry function is new unless it is that of an import. -/
theorem ProgramRun.entry_mem_identifiers (h : ProgramRun p options typed z) (hspelled : p.Spelled)
    {imports : List Host} :
    signed options.entryName ∈
        imports.map (fun h => signed h.target) ++ typed.functions.map (fun f => signed f.name) ↔
      ∃ host ∈ imports, bareName host.target = options.entryName := by
  obtain ⟨-, hw, hnew⟩ := h.entry_name
  have hbare := bareName_of_isWord hw
  rw [List.mem_append, List.mem_map, List.mem_map]
  constructor
  · rintro (⟨host, hh, heq⟩ | ⟨f, hf, heq⟩)
    · exact ⟨host, hh, (bareName_eq_of_signed heq).trans hbare⟩
    · have hsame := (signed_inj ((h.function_names hspelled).2 f hf).1 hbare).mp heq
      exact absurd hsame (hnew f hf)
  · rintro ⟨host, hh, heq⟩
    refine .inl ⟨host, hh, ?_⟩
    rw [signed, signed, heq, hbare]

theorem ProgramRun.nodup_exports (h : ProgramRun p options typed z) (hspelled : p.Spelled) :
    ((typed.forms options).filterMap (·.exportName)).Nodup := by
  obtain ⟨-, -, hnew⟩ := h.entry_name
  have hforms : (typed.forms options).filterMap (·.exportName) =
      (if options.exportFunctions then typed.functions.map (·.name) else []) ++ [options.entryName] := by
    unfold Typed.Program.forms
    cases options.exportFunctions with
    | true => simp [List.filterMap_map, Typed.Function.form]
    | false => simp [List.filterMap_map, Typed.Function.form]
  rw [hforms]
  split
  · refine List.Nodup.append (h.function_names hspelled).1 (List.nodup_singleton _) ?_
    rw [List.disjoint_singleton, List.mem_map]
    rintro ⟨g, hg, heq⟩
    exact hnew g hg heq
  · exact List.nodup_singleton _

end Entry

/-- The names of the functions of a module are distinct but for that of the entry function, which comes
last. It is distinct too exactly if no import has it. Exports always have distinct names. -/
theorem identifiers_distinct_unless_entry_imported {source file text : String} {options : Options}
    (h : compileSource source file options = .ok text) :
    ∃ typed m z, checkSource source file options = .ok typed ∧ typed.lower options = .ok m z ∧
      m.text = text ∧
      (∃ others, m.identifiers = others ++ [signed options.entryName] ∧ others.Nodup) ∧
      (m.identifiers.Nodup ↔ ∀ host ∈ m.imports, bareName host.target ≠ options.entryName) ∧
      m.exports.Nodup := by
  obtain ⟨typed, m, z, hsource, hl, htext⟩ := compileSource_eq_ok.mp h
  obtain ⟨p, z', hp, hc⟩ := checkSource_eq_ok.mp hsource
  have hspelled : p.Spelled := (Program.readable_of_source hp).names
  have hrun := ProgramRun.of_check hc
  obtain ⟨-, hfunctions, -⟩ := Typed.Program.of_lower hrun.lowerable hl
  have hothers := hrun.nodup_identifiers hspelled (Typed.Program.imports_sublist hl)
  have hidentifiers : m.identifiers = (m.imports.map (fun h => signed h.target) ++
      typed.functions.map (fun f => signed f.name)) ++ [signed options.entryName] := by
    rw [WatModule.identifiers, hfunctions, Typed.Program.forms, List.map_append, List.map_map,
      List.append_assoc, ← hrun.entry_name.1]
    rfl
  refine ⟨typed, m, z, hsource, hl, htext, ⟨_, hidentifiers, hothers⟩, ?_, ?_⟩
  · rw [hidentifiers, List.nodup_append_comm, List.singleton_append, List.nodup_cons,
      hrun.entry_mem_identifiers hspelled, and_iff_left hothers]
    simp only [not_exists, not_and, ne_eq]
  · rw [WatModule.exports, hfunctions]
    exact hrun.nodup_exports hspelled

/-- An entry function whose name is that of a host function that is not imported. -/
theorem identifiers_distinct_beside_host :
    ∃ m : WatModule, compileSource "fn f(n) \x7b return n + input(); \x7d print f(1);" ""
        { entryName := "print_f32" } = .ok m.text ∧
      m.identifiers = ["$read_i32", "$print_i32", "$f", "$print_f32"] ∧
      (∀ host ∈ m.imports, bareName host.target ≠ "print_f32") ∧ m.exports.Nodup := by
  obtain ⟨typed, m, z, hsource, hl, hm⟩ := exists_module_of_decide
    "fn f(n) \x7b return n + input(); \x7d print f(1);" "" { entryName := "print_f32" }
    (P := fun m => m.identifiers = ["$read_i32", "$print_i32", "$f", "$print_f32"])
    (by decide +kernel)
  have h := compileSource_eq_ok.mpr ⟨typed, m, z, hsource, hl, rfl⟩
  obtain ⟨typed', m', z', hsource', hl', -, -, hidentifiers, hexports⟩ :=
    identifiers_distinct_unless_entry_imported h
  cases hsource.symm.trans hsource'
  cases hl.symm.trans hl'
  exact ⟨m, h, hm, hidentifiers.mp (hm ▸ by decide), hexports⟩

/-- The top-level statements print a whole number, and the entry function has the name of the import
that prints it. -/
theorem entry_named_like_import :
    ∃ m : WatModule, compileSource "print 1;" "" { entryName := "print_i32" } = .ok m.text ∧
      m.identifiers = ["$print_i32", "$print_i32"] ∧ ¬ m.identifiers.Nodup := by
  obtain ⟨typed, m, z, hsource, hl, hm⟩ := exists_module_of_decide "print 1;" ""
    { entryName := "print_i32" } (P := fun m => m.identifiers = ["$print_i32", "$print_i32"])
    (by decide +kernel)
  refine ⟨m, compileSource_eq_ok.mpr ⟨typed, m, z, hsource, hl, rfl⟩, hm, ?_⟩
  rw [hm]
  decide

end Numlet
