import Numlet.Proofs.Check.Sound
import Numlet.Proofs.Code.Programs

/-!
The locals of checked functions. In a program that is spelled with words a parameter keeps its slot for
itself, so that the storage of every slot has the type of the local in the code.
-/
namespace Numlet
open Checking

/-- Every name of a program is a word. -/
def Program.Spelled (p : Program) : Prop := ∀ name ∈ p.names, Text.isWord name = true

theorem isWordChar_of_isWord {name : String} (h : Text.isWord name = true) :
    ∀ c ∈ name.toList, Text.isWordChar c = true := by
  unfold Text.isWord at h
  split at h
  · cases h
  · next c cs hcs =>
    rw [Bool.and_eq_true, List.all_eq_true] at h
    rw [hcs, List.forall_mem_cons]
    exact ⟨Pattern.isWordChar_of_isWordStart h.1, h.2⟩

theorem dot_not_mem_of_isWord {name : String} (h : Text.isWord name = true) : '.' ∉ name.toList := by
  intro hin
  have hdot := isWordChar_of_isWord h '.' hin
  revert hdot
  decide

namespace Checker

/-- Names that have not been met in a body. -/
structure Unmet (s : Checker) (name : String) : Prop where
  declarations : s.declarations.find? name = none
  storage : s.storage.find? name = none
  bindings : ∀ other v, s.scope.find? other = some v → v.slot ≠ name

theorem Unmet.fresh {s : Checker} {scope : Scope} {readTypes : Table NumType}
    (hempty : scope.bindings = .empty) (name : String) : (s.fresh scope readTypes).Unmet name where
  declarations := rfl
  storage := rfl
  bindings other v hv := by
    rw [find?_fresh hempty] at hv
    cases hv

theorem Unmet.nextSlot {s : Checker} {name : String} (h : s.Unmet name) : s.nextSlot name = name := by
  unfold Checker.nextSlot
  rw [h.declarations]
  rfl

theorem Unmet.declared {s : Checker} {name other : String} (h : s.Unmet name) (ho : s.Unmet other)
    (hne : other ≠ name) (type : NumType) (fixed : Bool) :
    (s.declared name type fixed).Unmet other where
  declarations := (Table.find?_insert_of_ne _ _ hne).trans ho.declarations
  storage := by
    unfold Checker.declared
    rw [storage_recorded, h.nextSlot, if_neg hne]
    exact ho.storage
  bindings x v hv := by
    change (s.scope.declare name _ type fixed).find? x = some v at hv
    rw [Scope.find?_declare, h.nextSlot] at hv
    split at hv
    · cases hv
      exact Ne.symm hne
    · exact ho.bindings x v hv

theorem Unmet.holds {s : Checker} {name : String} (h : s.Unmet name) (type : NumType) :
    (s.declared name type true).Holds name type where
  declared := ⟨_, Table.find?_insert_self _ _ _, Nat.succ_pos _⟩
  bindings x v hv hslot := by
    change (s.scope.declare name _ type true).find? x = some v at hv
    rw [Scope.find?_declare] at hv
    split at hv
    · cases hv
      exact ⟨rfl, rfl⟩
    · exact absurd hslot (h.bindings x v hv)
  storage := by
    unfold Checker.declared
    rw [storage_recorded, h.nextSlot, if_pos rfl]
    change some (NumType.joinKnown (s.storage.find? name) (some type)) = some type
    rw [h.storage]
    cases type <;> rfl

theorem declared_holds (ps : List Typed.Parameter) (s : Checker) (hnd : (ps.map (·.name)).Nodup)
    (hdot : ∀ p ∈ ps, '.' ∉ p.name.toList) (hs : ∀ p ∈ ps, s.Unmet p.name) :
    ∀ p ∈ ps, (ps.foldl (fun s p => s.declared p.name p.type true) s).Holds p.name p.type := by
  induction ps generalizing s with
  | nil => exact fun p hp => (by cases hp)
  | cons q ps ih =>
    rw [List.map_cons, List.nodup_cons] at hnd
    rw [List.forall_mem_cons] at hdot hs ⊢
    constructor
    · have hrest : Steps (fun _ => True) _ _ :=
        declared_steps ps (fun _ _ => trivial) (s.declared q.name q.type true)
      exact hrest.holds hdot.1 (hs.1.holds q.type)
    · refine ih _ hnd.2 hdot.2 fun p hp => hs.1.declared (hs.2 p hp) ?_ _ _
      intro heq
      exact hnd.1 (heq ▸ List.mem_map_of_mem hp)

end Checker

section Passes

variable {scope : Scope} {parameters : List Typed.Parameter} {body : List Stmt}
  {readTypes : Table NumType} {s s' : Checker} {typed : List Typed.Stmt}

theorem Passes.parameter_storage (h : Passes scope parameters body readTypes s typed s')
    (hempty : scope.bindings = .empty) (hnd : (parameters.map (·.name)).Nodup)
    (hdot : ∀ p ∈ parameters, '.' ∉ p.name.toList) :
    ∀ p ∈ parameters, s'.storage.find? p.name = some p.type := by
  obtain ⟨readTypes', s₀, s₁, number, ⟨hrun⟩, -, -, rfl⟩ :=
    h.final (P := fun _ => True) (fun _ _ _ _ _ _ => trivial) trivial
  intro p hp
  have hstart := Checker.declared_holds parameters (s₀.fresh scope readTypes') hnd hdot
    (fun p _ => .fresh hempty p.name) p hp
  exact (hrun.free.holds (hdot p hp) hstart).storage

end Passes

theorem Function.typedParameters_names (f : Function) :
    f.typedParameters.map (·.name) = f.parameters.map (·.name) := by
  rw [Function.typedParameters, List.map_map]
  rfl

/-- The source of the body of a checked function. -/
structure BodySource (p : Program) (f : Typed.Function) (body : List Stmt) : Prop where
  passes : ∃ scope s s', Passes scope f.parameters body .empty s f.body s' ∧
    scope.bindings = .empty ∧ s'.storage = f.storage
  parameters : (f.parameters.map (·.name)).Nodup
  names : ∀ name ∈ f.parameters.map (·.name) ++ namesOfStmts body, name ∈ p.names
  literals : ∀ l ∈ literalsOfStmts body, l ∈ p.literals

theorem FunctionsRun.forall₂ {fs : List Function} {s s' : Checker} {ts : List Typed.Function}
    (h : FunctionsRun fs s ts s') :
    List.Forall₂ (fun g t => ∃ s₁ s₂, FunctionRun g s₁ t s₂) fs ts := by
  induction h with
  | nil => exact .nil
  | cons h _ ih => exact .cons ⟨_, _, h⟩ ih

/-- Functions are checked in their order, each from its own source. -/
theorem ProgramRun.function_sources {p : Program} {options : Options} {typed : Typed.Program}
    {z : Checker} (h : ProgramRun p options typed z) :
    List.Forall₂ (fun g f => f.name = g.name ∧ f.parameters = g.typedParameters ∧
      BodySource p f g.body) p.functions typed.functions := by
  obtain @⟨s, ts, s₃, body, _, -, hd, hfs, he⟩ := h
  refine List.Forall₂.imp ?_ ((List.forall₂_and_left _ _).mpr ⟨fun g hg => hg, hfs.forall₂⟩)
  rintro g f ⟨hg, s₁, s₂, hrun⟩
  obtain @⟨body, s₃, signature, hp, hs, hr⟩ := hrun
  refine ⟨rfl, rfl, ⟨_, _, _, hp, rfl, rfl⟩, ?_, fun name hn => ?_, fun l hl => ?_⟩
  · rw [Function.typedParameters_names]
    exact (hd.names g hg).2.2
  · rw [Function.typedParameters_names] at hn
    exact List.mem_append_left _ (List.mem_flatMap.mpr ⟨g, hg, List.mem_cons_of_mem _ hn⟩)
  · exact List.mem_append_left _ (List.mem_flatMap.mpr ⟨g, hg, hl⟩)

theorem ProgramRun.entry_source {p : Program} {options : Options} {typed : Typed.Program}
    {z : Checker} (h : ProgramRun p options typed z) :
    typed.entry.parameters = [] ∧ BodySource p typed.entry p.body := by
  obtain @⟨s, ts, s₃, body, _, -, hd, hfs, he⟩ := h
  exact ⟨rfl, ⟨_, _, _, he, rfl, rfl⟩, List.nodup_nil, fun _ hn => List.mem_append_right _ hn,
    fun _ hl => List.mem_append_right _ hl⟩

theorem ProgramRun.source {p : Program} {options : Options} {typed : Typed.Program} {z : Checker}
    (h : ProgramRun p options typed z) :
    ∀ f ∈ typed.bodies, ∃ body, BodySource p f body := by
  intro f hf
  rw [Typed.Program.bodies, List.mem_append, List.mem_singleton] at hf
  obtain hf | rfl := hf
  · obtain ⟨k, hk, rfl⟩ := List.getElem_of_mem hf
    have hsource := h.function_sources.get (by rw [h.function_sources.length_eq]; exact hk) hk
    exact ⟨_, hsource.2.2⟩
  · exact ⟨p.body, h.entry_source.2⟩

/-- Every function of a checked program can be lowered. -/
theorem ProgramRun.lowerable {p : Program} {options : Options} {typed : Typed.Program} {z : Checker}
    (h : ProgramRun p options typed z) : ∀ f ∈ typed.bodies, f.Lowerable typed := by
  intro f hf
  obtain ⟨body, hsource⟩ := h.source f hf
  exact ⟨h.sound f hf, hsource.parameters⟩

/-- The slots of a function have in the code the types that they were checked with. -/
theorem ProgramRun.slotType_eq {p : Program} {options : Options} {typed : Typed.Program} {z : Checker}
    (h : ProgramRun p options typed z) (hspelled : p.Spelled) {f : Typed.Function}
    (hf : f ∈ typed.bodies) {x : String} {t : NumType} (hx : f.storage.find? x = some t) :
    f.slotType x = t := by
  obtain ⟨body, ⟨scope, s, s', hp, hempty, hstorage⟩, hnd, hnames, -⟩ := h.source f hf
  have hdot : ∀ q ∈ f.parameters, '.' ∉ q.name.toList := fun q hq =>
    dot_not_mem_of_isWord
      (hspelled q.name (hnames _ (List.mem_append_left _ (List.mem_map_of_mem hq))))
  unfold Typed.Function.slotType
  rw [hx]
  cases hq : f.parameters.find? (·.name == x) with
  | none => rfl
  | some q =>
    have hname : q.name = x := by simpa using List.find?_some hq
    have hstored := hp.parameter_storage hempty hnd hdot q (List.mem_of_find?_eq_some hq)
    rw [hstorage, hname, hx] at hstored
    cases hstored
    rfl

end Numlet
