import Numlet.Compile
import Numlet.Proofs.Check.Functions

/-!
Whole programs. In the end the checker knows of every name what the checked program says of it, and
everything that was found out about a function on the way still holds.
-/
namespace Numlet
open Checking

namespace DeclareRun

variable {fs : List Function} {s s' : Checker}

theorem rest (h : DeclareRun fs s s') : s'.log = s.log ∧ s'.options = s.options := by
  induction h with
  | nil => exact ⟨rfl, rfl⟩
  | cons _ _ _ _ _ ih => exact ih

theorem new_names (h : DeclareRun fs s s') : ∀ f ∈ fs, s.signatures.find? f.name = none := by
  induction h with
  | nil => exact fun f hf => (by cases hf)
  | @cons f fs s s' hn _ _ _ _ ih =>
    rw [List.forall_mem_cons]
    refine ⟨hn, fun g hg => ?_⟩
    have hnone := ih g hg
    rw [Checker.withSignature, Table.find?_insert] at hnone
    split at hnone
    · cases hnone
    · exact hnone

theorem nodup (h : DeclareRun fs s s') : (fs.map (·.name)).Nodup := by
  induction h with
  | nil => exact List.nodup_nil
  | @cons f fs s s' _ _ _ _ hs ih =>
    rw [List.map_cons, List.nodup_cons]
    refine ⟨fun hm => ?_, ih⟩
    obtain ⟨g, hg, hname⟩ := List.mem_map.mp hm
    have hnone := hs.new_names g hg
    rw [Checker.withSignature, hname, Table.find?_insert_self] at hnone
    cases hnone

theorem names (h : DeclareRun fs s s') :
    ∀ f ∈ fs, f.name ≠ s.options.entryName ∧ (∀ h ∈ Host.all, bareName h.target ≠ f.name) ∧
      (f.parameters.map (·.name)).Nodup := by
  induction h with
  | nil => exact fun f hf => (by cases hf)
  | cons _ he hh hp _ ih =>
    rw [List.forall_mem_cons]
    exact ⟨⟨he, hh, hp⟩, ih⟩

theorem later (h : DeclareRun fs s s') : s.Later s' := by
  induction h with
  | nil => exact .refl _
  | @cons f fs s s' hn _ _ _ _ ih =>
    suffices hfirst : s.Later (s.withSignature f.name f.signature) from hfirst.trans ih
    refine ⟨fun name signature hs => ?_, fun _ h => h, fun _ _ _ _ _ h => h⟩
    have hne : name ≠ f.name := by
      rintro rfl
      rw [hn] at hs
      cases hs
    exact ⟨signature, (Table.find?_insert_of_ne _ _ hne).trans hs, .refl _⟩

theorem find?_eq (h : DeclareRun fs s s') (name : String) :
    s'.signatures.find? name =
      ((fs.find? (·.name == name)).map Function.signature).or (s.signatures.find? name) := by
  induction h with
  | nil => rfl
  | @cons f fs s s' _ _ _ _ hs ih =>
    rw [ih, Checker.withSignature, Table.find?_insert, List.find?_cons]
    by_cases hname : name = f.name
    · -- No later function has the name of this one.
      subst hname
      have hnone : fs.find? (·.name == f.name) = none := by
        rw [List.find?_eq_none]
        intro g hg hsame
        have hnew := hs.new_names g hg
        rw [Checker.withSignature, beq_iff_eq.mp hsame, Table.find?_insert_self] at hnew
        cases hnew
      simp [hnone]
    · have hno : (f.name == name) = false := beq_eq_false_iff_ne.mpr (Ne.symm hname)
      simp [hno, hname]

theorem find?_of_mem (h : DeclareRun fs s s') {f : Function} (hf : f ∈ fs) :
    s'.signatures.find? f.name = some f.signature := by
  have hfound : fs.find? (·.name == f.name) = some f := by
    have hnodup := h.nodup
    clear h
    induction fs with
    | nil => cases hf
    | cons g fs ih =>
      rw [List.map_cons, List.nodup_cons] at hnodup
      obtain rfl | hf := List.mem_cons.mp hf
      · simp
      · have hne : g.name ≠ f.name := fun heq => hnodup.1 (heq ▸ List.mem_map_of_mem hf)
        rw [List.find?_cons_of_neg (by simpa using hne)]
        exact ih hf hnodup.2
  rw [h.find?_eq, hfound]
  rfl

end DeclareRun

theorem FunctionsRun.unknown {fs : List Function} {s s' : Checker} {ts : List Typed.Function}
    (h : FunctionsRun fs s ts s') {name : String} (hn : s.signatures.find? name = none) :
    s'.signatures.find? name = none := by
  induction h with
  | nil => exact hn
  | cons h _ ih => exact ih (h.unknown hn)

theorem FunctionsRun.names_eq {fs : List Function} {s s' : Checker} {ts : List Typed.Function}
    (h : FunctionsRun fs s ts s') : ts.map (·.name) = fs.map (·.name) := by
  induction h with
  | nil => rfl
  | cons h _ ih => rw [List.map_cons, List.map_cons, h.name_eq, ih]

theorem FunctionsRun.options_eq {fs : List Function} {s s' : Checker} {ts : List Typed.Function}
    (h : FunctionsRun fs s ts s') : s'.options = s.options := by
  induction h with
  | nil => rfl
  | cons h _ ih => exact ih.trans h.options_eq

/-- `f` was checked to `t` on the way from `s` to `z`, while it was waiting. -/
def CheckedBetween (s z : Checker) (f : Function) (t : Typed.Function) : Prop :=
  ∃ s₁ s₂, FunctionRun f s₁ t s₂ ∧ s₁.Awaits f ∧ s.Later s₁ ∧ s₂.Later z ∧ s₁.options = z.options

theorem CheckedBetween.mono {s s₁ z₁ z : Checker} {f : Function} {t : Typed.Function}
    (h : CheckedBetween s₁ z₁ f t) (hs : s.Later s₁) (hz : z₁.Later z) (ho : z₁.options = z.options) :
    CheckedBetween s z f t := by
  obtain ⟨s₂, s₃, hrun, ha, hs₂, hz₂, ho₂⟩ := h
  exact ⟨s₂, s₃, hrun, ha, hs.trans hs₂, hz₂.trans hz, ho₂.trans ho⟩

theorem CheckedBetween.checked {s z : Checker} {f : Function} {t : Typed.Function}
    (h : CheckedBetween s z f t) : t.Checked z := by
  obtain ⟨s₁, s₂, hrun, ha, -, hz, -⟩ := h
  exact hrun.checked ha hz

/-- Functions are checked one after the other, each while it is waiting. -/
theorem FunctionsRun.each {fs : List Function} {s s' : Checker} {ts : List Typed.Function}
    (h : FunctionsRun fs s ts s') (hd : (fs.map (·.name)).Nodup) (ha : ∀ f ∈ fs, s.Awaits f) :
    s.Later s' ∧ List.Forall₂ (CheckedBetween s s') fs ts := by
  induction h with
  | nil => exact ⟨.refl _, .nil⟩
  | @cons f fs s t s₁ ts s₂ h hs ih =>
    rw [List.map_cons, List.nodup_cons] at hd
    rw [List.forall_mem_cons] at ha
    have hwait : ∀ g ∈ fs, s₁.Awaits g := by
      intro g hg
      refine (ha.2 g hg).of_run h ?_
      rintro heq
      exact hd.1 (heq ▸ List.mem_map_of_mem hg)
    obtain ⟨hrest, heach⟩ := ih hd.2 hwait
    have hfirst := h.later ha.1
    have hoptions := hs.options_eq.trans h.options_eq
    refine ⟨hfirst.trans hrest, .cons ⟨s, s₁, h, ha.1, .refl _, hrest, hoptions.symm⟩ ?_⟩
    exact heach.imp fun g u hg => hg.mono hfirst (.refl _) rfl

theorem Checker.find?_new (options : Options) {h : Host} (hh : h ∈ Host.all) :
    (Checker.new options).signatures.find? h.name = some (.ofHost h) := by
  simp only [Host.all, List.mem_cons, List.not_mem_nil, or_false] at hh
  obtain rfl | rfl | rfl | rfl | rfl | rfl | rfl | rfl := hh <;> rfl

theorem Checker.host_of_find?_new {options : Options} {name : String} {signature : Signature}
    (h : (Checker.new options).signatures.find? name = some signature) :
    ∃ host, Host.find? name = some host := by
  obtain ⟨host, hh, heq⟩ := List.mem_map.mp (Table.mem_of_find?_ofList h)
  cases heq
  exact Option.isSome_iff_exists.mp (List.find?_isSome.mpr ⟨host, hh, beq_self_eq_true _⟩)

theorem checkSource_eq_ok {source file : String} {options : Options} {typed : Typed.Program} :
    checkSource source file options = .ok typed ↔
      ∃ p z, Program.ofSource source file = .ok p ∧ p.check options = .ok typed z := by
  unfold checkSource
  cases hp : Program.ofSource source file with
  | error d =>
    refine ⟨fun h => (by cases h), ?_⟩
    rintro ⟨p, z, h, -⟩
    cases h
  | ok p =>
    change answer (p.check options) = .ok typed ↔ _
    constructor
    · intro h
      cases hc : p.check options with
      | ok t z =>
        rw [hc] at h
        cases h
        exact ⟨p, z, rfl, hc⟩
      | error d z =>
        rw [hc] at h
        cases h
    · rintro ⟨q, z, hq, h⟩
      cases hq
      rw [h]
      rfl

/-- A program is accepted if its parts are, one after the other. -/
theorem Program.check_eq_ok {p : Program} {options : Options} {typed : Typed.Program} {z : Checker} :
    p.check options = .ok typed z ↔ Text.isWord options.entryName = true ∧ ∃ s s₁,
      declareFunctions p.functions (.new options) = .ok () s ∧
      checkFunctions p.functions s = .ok typed.functions s₁ ∧
      checkEntry p.body p.bodySpan s₁ = .ok typed.entry z := by
  unfold Program.check checkProgram
  rw [bind_of_ok (get_eq_ok.mpr ⟨rfl, rfl⟩), show (Checker.new options).options = options from rfl]
  by_cases hword : Text.isWord options.entryName = true
  · rw [if_neg (by simp [hword])]
    constructor
    · intro h
      obtain ⟨_, s, hd, k⟩ := bind_eq_ok.mp h
      obtain ⟨functions, s₁, hf, k₁⟩ := bind_eq_ok.mp k
      obtain ⟨entry, s₂, he, k₂⟩ := bind_eq_ok.mp k₁
      cases k₂
      exact ⟨hword, s, s₁, hd, hf, he⟩
    · rintro ⟨-, s, s₁, hd, hf, he⟩
      exact (bind_of_ok hd).trans ((bind_of_ok hf).trans (bind_of_ok he))
  · rw [if_pos (by simpa using hword)]
    constructor
    · intro h
      cases h
    · rintro ⟨h, -⟩
      exact absurd h hword

/-- Functions that have been declared wait for their check. -/
theorem DeclareRun.awaits {fs : List Function} {options : Options} {s : Checker}
    (h : DeclareRun fs (.new options) s) {f : Function} (hf : f ∈ fs) : s.Awaits f := by
  have hlog : s.log = #[] := h.rest.1
  have hfound := h.find?_of_mem hf
  refine ⟨⟨_, hfound, rfl, rfl, id⟩, fun found hsame hx => ?_, fun t ht => ?_⟩
  · rw [hfound] at hsame
    cases hsame
    exact hx
  · rw [hlog] at ht
    exact absurd ht (Array.not_mem_empty _)

/-- The functions of a program are declared, and each is then checked while it is waiting, before the end
of the program. -/
theorem ProgramRun.checkedBetween {p : Program} {options : Options} {typed : Typed.Program} {z : Checker}
    (h : ProgramRun p options typed z) :
    ∃ s, DeclareRun p.functions (.new options) s ∧ s.Later z ∧
      List.Forall₂ (CheckedBetween s z) p.functions typed.functions := by
  obtain @⟨s, ts, s₁, body, _, -, hd, hf, he⟩ := h
  obtain ⟨hlater, heach⟩ := hf.each hd.nodup fun f hmem => hd.awaits hmem
  have hentry : s₁.Later z := by
    refine Checker.Later.trans (Checker.reported_later ?_) (he.later fun f signature hfun => ?_)
    · simp
    · cases hfun
  refine ⟨s, hd, hlater.trans hentry, heach.imp fun f t hf => ?_⟩
  exact hf.mono (.refl _) hentry he.options_eq.symm

theorem ProgramRun.later {p : Program} {options : Options} {typed : Typed.Program} {z : Checker}
    (h : ProgramRun p options typed z) : (Checker.new options).Later z := by
  obtain ⟨s, hd, hlater, -⟩ := h.checkedBetween
  exact hd.later.trans hlater

theorem ProgramRun.each {p : Program} {options : Options} {typed : Typed.Program} {z : Checker}
    (h : ProgramRun p options typed z) {t : Typed.Function} (ht : t ∈ typed.functions) :
    ∃ f ∈ p.functions, ∃ s, CheckedBetween s z f t := by
  obtain ⟨s, -, -, heach⟩ := h.checkedBetween
  obtain ⟨k, hk, rfl⟩ := List.getElem_of_mem ht
  have hk' : k < p.functions.length := by rwa [heach.length_eq]
  exact ⟨_, List.get_mem _ ⟨k, hk'⟩, s, heach.get hk' hk⟩

/-- At the end of a program every function has been checked. -/
theorem ProgramRun.checked {p : Program} {options : Options} {typed : Typed.Program} {z : Checker}
    (h : ProgramRun p options typed z) : ∀ t ∈ typed.functions, t.Checked z := by
  intro t ht
  obtain ⟨f, -, s, hrun⟩ := h.each ht
  exact hrun.checked

/-- The calls of the top-level statements have the results that their callees have in the end. -/
theorem ProgramRun.entry {p : Program} {options : Options} {typed : Typed.Program} {z : Checker}
    (h : ProgramRun p options typed z) :
    (∀ x ∈ Typed.exprsOfStmts typed.entry.body, x.CallSettled z.signatures) ∧
      ∀ x ∈ Typed.partsOfStmts typed.entry.body, x.CallKnown z.signatures := by
  obtain @⟨s, ts, s₁, body, _, -, hd, hf, he⟩ := h
  refine ⟨?_, he.made.2⟩
  refine he.callsSettled ?_ (.refl _) (fun f hfun => ?_) (fun f hfun => ?_)
  · exact fun f signature hfun => (by cases hfun)
  · cases hfun
  · cases hfun

/-- The checker knows a name in the end as the checked program has it. -/
theorem ProgramRun.signature?_eq {p : Program} {options : Options} {typed : Typed.Program}
    {z : Checker} (h : ProgramRun p options typed z) {name : String} {signature : Signature}
    (hs : z.signatures.find? name = some signature) :
    typed.signature? name = some (signature.parameters, signature.result) := by
  have hlater := h.later
  unfold Typed.Program.signature?
  cases hhost : Host.find? name with
  | some host =>
    have hname : host.name = name := by simpa using List.find?_some hhost
    obtain ⟨last, hlast, hlasts⟩ :=
      hlater.signatures _ _ (Checker.find?_new options (List.mem_of_find?_eq_some hhost))
    rw [hname, hs] at hlast
    cases hlast
    obtain ⟨-, hresult⟩ := hlasts.settled rfl
    rw [hlasts.parameters, hresult]
    rfl
  | none =>
    cases hfound : typed.functions.find? (·.name == name) with
    | some t =>
      have hname : t.name = name := by simpa using List.find?_some hfound
      obtain ⟨last, hlast, hparams, hresult⟩ :=
        (h.checked t (List.mem_of_find?_eq_some hfound)).signature
      rw [hname, hs] at hlast
      cases hlast
      rw [Option.map_some, hparams, hresult]
    | none =>
      -- Nothing else is ever declared.
      exfalso
      rw [List.find?_eq_none] at hfound
      obtain @⟨s, ts, s₁, body, _, -, hd, hf, he⟩ := h
      have hnone : s.signatures.find? name = none := by
        rw [hd.find?_eq]
        have hfresh : p.functions.find? (·.name == name) = none := by
          rw [List.find?_eq_none]
          intro f hmem hname
          have hin : f.name ∈ ts.map (·.name) := hf.names_eq ▸ List.mem_map_of_mem hmem
          obtain ⟨t, ht, heq⟩ := List.mem_map.mp hin
          exact hfound t ht (by simpa [heq] using hname)
        rw [hfresh]
        cases hnew : (Checker.new options).signatures.find? name with
        | none => rfl
        | some found =>
          obtain ⟨host, hsome⟩ := Checker.host_of_find?_new hnew
          rw [hhost] at hsome
          cases hsome
      have hend : z.signatures.find? name = none :=
        he.signatures_grow.unknown name (hf.unknown hnone)
      rw [hs] at hend
      cases hend

end Numlet
