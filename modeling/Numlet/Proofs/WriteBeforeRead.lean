import Numlet.Proofs.Check.Locals
import Numlet.Proofs.Check.Ready

/-!
Locals are written before they are read. On every path through a checked body a read of a local follows a
store into it. The exception is a local that is declared by an assignment in the right operand of `&&` or
`||`: its name is in sight after the operand, also on paths that pass the operand over.
-/
namespace Numlet
open Typed

/-- Parameters with names of their own have these as their slots. -/
theorem Checker.Ready.declareAll {names : List String} (ps : List Typed.Parameter) {s : Checker}
    (hs : s.Ready names []) (hnd : (ps.map (·.name)).Nodup) (hunmet : ∀ p ∈ ps, s.Unmet p.name)
    (hnames : ∀ p ∈ ps, p.name ∈ names) :
    (ps.foldl (fun s p => s.declared p.name p.type true) s).Ready names [] := by
  induction ps generalizing s with
  | nil => exact hs
  | cons q ps ih =>
    rw [List.map_cons, List.nodup_cons] at hnd
    rw [List.forall_mem_cons] at hunmet hnames
    refine ih (hs.declared (.inl ?_)) hnd.2 (fun p hp => ?_) hnames.2
    · rw [hunmet.1.nextSlot]
      exact hnames.1
    · exact hunmet.1.declared (hunmet.2 p hp) (fun heq => hnd.1 (heq ▸ List.mem_map_of_mem hp)) _ _

/-- At the start of a pass only parameters are in sight. -/
theorem Checker.Ready.entered {s : Checker} {scope : Scope} {readTypes : Table NumType}
    {ps : List Typed.Parameter} (hempty : scope.bindings = .empty) (hnd : (ps.map (·.name)).Nodup) :
    (s.entered scope readTypes ps).Ready (ps.map (·.name)) [] := by
  refine declareAll ps (fun name v hv => ?_) hnd (fun p _ => .fresh hempty p.name)
    fun p hp => List.mem_map_of_mem hp
  rw [Checker.find?_fresh hempty] at hv
  cases hv

theorem Passes.readsReady {scope : Scope} {ps : List Typed.Parameter} {body : List Stmt}
    {readTypes : Table NumType} {s s' : Checker} {typed : List Typed.Stmt}
    (h : Passes scope ps body readTypes s typed s') (hempty : scope.bindings = .empty)
    (hnd : (ps.map (·.name)).Nodup) {path : List Access} {x : Exit} (hp : StmtsPath typed path x) :
    ReadsReady s.options.autoDeclare (ps.map (·.name)) [] path := by
  obtain ⟨readTypes', s₀, s₁, number, ⟨hrun⟩, -, hoptions, rfl⟩ :=
    h.final (P := fun c => c.options = s.options) (fun _ _ _ _ hpass hc => hpass.advance.extends.options.trans hc)
      rfl
  have hentered := s₀.entered_steps (N := fun _ => True) scope readTypes' ps fun _ _ => trivial
  have hreads := (hrun.leads hp [] (.entered hempty hnd)).1
  rwa [hentered.extends.options, show (s₀.fresh scope readTypes').options = s.options from hoptions]
    at hreads

/-- The body of a checked function, by the passes that have made it under the options of the program. -/
theorem ProgramRun.passes {p : Program} {options : Options} {typed : Typed.Program} {z : Checker}
    (h : ProgramRun p options typed z) {f : Typed.Function} (hf : f ∈ typed.bodies) :
    ∃ scope body s s', Passes scope f.parameters body .empty s f.body s' ∧
      scope.bindings = .empty ∧ s.options = options := by
  obtain ⟨hlast, hend⟩ : z.options = options ∧ ∃ s₁ s₂,
      Passes {} [] p.body .empty s₁ typed.entry.body s₂ ∧ s₁.options = options ∧
        typed.entry.parameters = [] := by
    obtain ⟨-, hd, hfs, he⟩ := h
    have ho := hfs.options_eq.trans hd.rest.2
    exact ⟨he.options_eq.trans ho, _, _, he, ho, rfl⟩
  rw [Typed.Program.bodies, List.mem_append, List.mem_singleton] at hf
  obtain hf | rfl := hf
  · obtain ⟨g, -, _, s₁, s₂, hrun, -, -, -, ho⟩ := h.each hf
    obtain ⟨hp, -, -⟩ := hrun
    exact ⟨_, _, _, _, hp, rfl, ho.trans hlast⟩
  · obtain ⟨s₁, s₂, he, ho, hnone⟩ := hend
    rw [hnone]
    exact ⟨_, _, _, _, he, rfl, ho⟩

/-- A read of a local that is no parameter follows a store into it, on every path through a checked body.
Where assignments may declare, a path may instead have passed over an operand of `&&` or `||` that would
have stored into the local. -/
theorem reads_follow_stores_or_skips {p : Program} {options : Options} {typed : Typed.Program}
    {z : Checker} (h : p.check options = .ok typed z) {f : Typed.Function} (hf : f ∈ typed.bodies)
    {before after : List Access} {slot : String} (hpath : f.Path (before ++ .read slot :: after))
    (hslot : slot ∉ f.parameters.map (·.name)) :
    .store slot ∈ before ∨
      (options.autoDeclare = true ∧
        ∃ operand, .skip operand ∈ before ∧ slot ∈ operand.stores.map Prod.fst) := by
  have hrun := ProgramRun.of_check h
  obtain ⟨scope, body, s, s', hp, hempty, hoptions⟩ := hrun.passes hf
  obtain ⟨_, hsource⟩ := hrun.source f hf
  obtain ⟨x, hpath⟩ := hpath
  have hready := hp.readsReady hempty hsource.parameters hpath before slot after rfl
  rw [hoptions, List.nil_append] at hready
  exact hready.resolve_left hslot

/-- A loop that reads a local in its body and breaks. -/
def Typed.isBreakingLoop : List Typed.Stmt → Bool
  | [.declare "i" (some (.literal _ _ _)) _ _,
      .loop none (some (.binary _ (.var "i" _ _) (.literal _ _ _) _ _ _))
        (.block [.assign "y" (.var "i" _ _) _,
          .assign "i" (.binary _ (.var "y" _ _) (.literal _ _ _) _ _ _) _, .breakLoop _] _) none _,
      .print (.var "i" _ _) _] => true
  | _ => false

/-- A path through a loop that declares `y` in its body and breaks. -/
theorem reads_follow_stores_in_loop :
    ∃ p typed z,
      Program.ofSource "let i = 0; while i < 2 \x7b y = i; i = y + 1; break; \x7d print i;" "" = .ok p ∧
      p.check {} = .ok typed z ∧ typed.entry ∈ typed.bodies ∧
        ∃ before after, typed.entry.Path (before ++ .read "y" :: after) ∧
          "y" ∉ typed.entry.parameters.map (·.name) ∧
          (.store "y" ∈ before ∨ (({} : Options).autoDeclare = true ∧
            ∃ operand, .skip operand ∈ before ∧ "y" ∈ operand.stores.map Prod.fst)) := by
  obtain ⟨typed, hsource, hparameters, hshape⟩ := exists_ok_of_decide
    (P := fun typed : Typed.Program => typed.entry.parameters = [] ∧
      Typed.isBreakingLoop typed.entry.body = true)
    (x := checkSource "let i = 0; while i < 2 \x7b y = i; i = y + 1; break; \x7d print i;" "" {})
    (by decide +kernel)
  obtain ⟨p, z, hp, h⟩ := checkSource_eq_ok.mp hsource
  have hentry : typed.entry ∈ typed.bodies := List.mem_append_right _ List.mem_cons_self
  have hnone : "y" ∉ typed.entry.parameters.map (·.name) := by simp [hparameters]
  obtain ⟨path, hpath, rfl⟩ : ∃ path, typed.entry.Path path ∧ path =
      [.store "i", .read "i", .read "i", .store "y"] ++ .read "y" :: [.store "i", .read "i"] := by
    unfold Typed.isBreakingLoop at hshape
    split at hshape
    · next hbody =>
      unfold Typed.Function.Path
      rw [hbody]
      exact ⟨_, ⟨.falls, .cons (.declare (.present .literal)) (.cons
        (.loop .missing (.breaks (.present (.binary .var .literal)) (.block (.cons (.assign .var)
          (.cons (.assign (.binary .var .literal)) (.leave .breakLoop (by simp)))))))
        (.cons (.print .var) .nil))⟩, rfl⟩
    · cases hshape
  exact ⟨p, typed, z, hp, h, hentry, _, _, hpath, hnone,
    reads_follow_stores_or_skips h hentry hpath hnone⟩

/-- An `&&` with a number before it, and then a read of `x`. -/
def Typed.isSkipThenRead : List Typed.Stmt → Bool
  | [.expression (.binary .and (.literal _ _ _) _ _ _ _), .print (.var "x" _ _) _] => true
  | _ => false

/-- The operand that declares `x` is passed over, and `x` is read. -/
theorem skipped_operand_leaves_local_unwritten :
    ∃ typed, checkSource "0 && (x = 5); print x;" "" {} = .ok typed ∧
      ∃ before after, typed.entry.Path (before ++ .read "x" :: after) ∧
        "x" ∉ typed.entry.parameters.map (·.name) ∧ .store "x" ∉ before := by
  obtain ⟨typed, hsource, hparameters, hshape⟩ := exists_ok_of_decide
    (P := fun typed : Typed.Program => typed.entry.parameters = [] ∧
      Typed.isSkipThenRead typed.entry.body = true)
    (x := checkSource "0 && (x = 5); print x;" "" {}) (by decide +kernel)
  refine ⟨typed, hsource, ?_⟩
  unfold Typed.isSkipThenRead at hshape
  split at hshape
  · next right _ _ _ _ _ _ hbody =>
    refine ⟨[.skip right], [], ⟨.falls, ?_⟩, by simp [hparameters], by simp⟩
    rw [hbody]
    exact .cons (.expression (.shortcut rfl .literal)) (.cons (.print .var) .nil)
  · cases hshape

end Numlet
