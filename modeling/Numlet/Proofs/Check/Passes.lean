import Numlet.Proofs.Check.Bindings

/-!
Runs of the checker over bodies, functions and programs. A body is run over until its storage agrees
with that of the run before.
-/
namespace Numlet
open Checking

namespace Checker

/-- Before a pass: nothing is known of the body. -/
def fresh (s : Checker) (scope : Scope) (readTypes : Table NumType) : Checker :=
  { s with
    storage := .empty, readTypes := readTypes, declarations := .empty
    bareReturn := false, valuedReturn := false, scope := scope }

/-- At the start of a pass: the parameters are declared. -/
def entered (s : Checker) (scope : Scope) (readTypes : Table NumType)
    (parameters : List Typed.Parameter) : Checker :=
  parameters.foldl (fun s p => s.declared p.name p.type true) (s.fresh scope readTypes)

theorem find?_fresh {s : Checker} {scope : Scope} {readTypes : Table NumType}
    (hempty : scope.bindings = .empty) (name : String) :
    (s.fresh scope readTypes).scope.find? name = none := by
  change scope.bindings.find? name = none
  rw [hempty]
  rfl

theorem bound_fresh {s : Checker} {scope : Scope} {readTypes : Table NumType}
    (hempty : scope.bindings = .empty) : (s.fresh scope readTypes).Bound := by
  intro name v hv
  rw [find?_fresh hempty] at hv
  cases hv

end Checker

/-- One pass over a body, which reads locals at the given types. -/
inductive PassRun (scope : Scope) (parameters : List Typed.Parameter) (body : List Stmt)
    (readTypes : Table NumType) : Checker → List Typed.Stmt → Checker → Prop
  | mk {s typed s₁} (h : StmtsRun body (s.entered scope readTypes parameters) typed s₁) :
      PassRun scope parameters body readTypes s typed (s₁.withScope s.scope)

/-- Passes over a body until one ends with the storage that it has read. -/
inductive Passes (scope : Scope) (parameters : List Typed.Parameter) (body : List Stmt) :
    Table NumType → Checker → List Typed.Stmt → Checker → Prop
  | last {readTypes s typed s₁ number} (h : PassRun scope parameters body readTypes s typed s₁)
      (ha : s₁.storage.agrees readTypes = true) :
      Passes scope parameters body readTypes s typed (s₁.reported (.storageSettled number))
  | again {readTypes s typed s₁ final s₂} (h : PassRun scope parameters body readTypes s typed s₁)
      (ha : s₁.storage.agrees readTypes = false)
      (hs : Passes scope parameters body s₁.storage s₁ final s₂) :
      Passes scope parameters body readTypes s final s₂

theorem declareParameters_run (parameters : List Typed.Parameter) (s : Checker) :
    declareParameters parameters s =
      .ok () (parameters.foldl (fun s p => s.declared p.name p.type true) s) := by
  induction parameters generalizing s with
  | nil => rfl
  | cons p ps ih =>
    change ((discard (declareLocal p.name p.type true) : Checking PUnit) >>= fun _ =>
      declareParameters ps) s = _
    have hd : (discard (declareLocal p.name p.type true) : Checking PUnit) s =
        .ok () (s.declared p.name p.type true) := by
      change EStateM.map _ _ s = _
      unfold EStateM.map
      rw [declareLocal_run]
    rw [bind_of_ok hd, ih]
    rfl

theorem PassRun.of_pass {scope : Scope} {readTypes : Table NumType}
    {parameters : List Typed.Parameter} {body : List Stmt} {s s' : Checker} {typed : List Typed.Stmt}
    (h : pass scope readTypes parameters body s = .ok typed s') :
    PassRun scope parameters body readTypes s typed s' := by
  obtain ⟨_, s₁, hm, k⟩ := bind_eq_ok.mp h
  cases hm
  obtain ⟨s₂, hw, rfl⟩ := within_eq_ok k
  rw [bind_of_ok (declareParameters_run _ _)] at hw
  exact .mk (StmtsRun.of_check body hw)

theorem Passes.of_settle {scope : Scope} {parameters : List Typed.Parameter} {body : List Stmt}
    {fuel number : Nat} {readTypes : Table NumType} {s s' : Checker} {typed : List Typed.Stmt}
    (h : settle scope parameters body fuel number readTypes s = .ok typed s') :
    Passes scope parameters body readTypes s typed s' := by
  induction fuel generalizing number readTypes s with
  | zero => cases h
  | succ fuel ih =>
    rw [settle] at h
    obtain ⟨first, s₁, hp, k⟩ := bind_eq_ok.mp h
    have hrun := PassRun.of_pass hp
    obtain ⟨s₂, s₃, hg, k₁⟩ := bind_eq_ok.mp k
    cases hg
    cases ha : s₁.storage.agrees readTypes with
    | true =>
      rw [if_pos ha] at k₁
      cases k₁
      exact .last hrun ha
    | false =>
      rw [if_neg (by simp [ha])] at k₁
      exact .again hrun ha (ih k₁)

def Function.typedParameters (f : Function) : List Typed.Parameter :=
  f.parameters.map fun p => ⟨p.name, p.type⟩

/-- What callers know of a function before its body is checked. -/
def Function.signature (f : Function) : Signature :=
  ⟨f.parameters.map Parameter.type, f.result, f.result.isSome, false⟩

inductive FunctionRun (f : Function) : Checker → Typed.Function → Checker → Prop
  | mk {s body s₁ signature}
      (h : Passes (.forFunction f.name) f.typedParameters f.body .empty
        (s.reported (.checkingFunction f.name)) body s₁)
      (hs : s₁.signatures.find? f.name = some signature)
      (hr : f.result = none → signature.result.isSome = true → s₁.valuedReturn = true) :
      FunctionRun f s
        ⟨f.name, f.typedParameters, signature.result, body, f.bodySpan, s₁.storage, f.span⟩
        (s₁.withSignature f.name { signature with checked := true })

inductive FunctionsRun : List Function → Checker → List Typed.Function → Checker → Prop
  | nil {s} : FunctionsRun [] s [] s
  | cons {f fs s t s₁ ts s₂} (h : FunctionRun f s t s₁) (hs : FunctionsRun fs s₁ ts s₂) :
      FunctionsRun (f :: fs) s (t :: ts) s₂

theorem FunctionRun.of_check {f : Function} {s s' : Checker} {t : Typed.Function}
    (h : checkFunction f s = .ok t s') : FunctionRun f s t s' := by
  obtain ⟨_, s₁, hm, k⟩ := bind_eq_ok.mp h
  cases hm
  obtain ⟨body, s₂, hb, k₁⟩ := bind_eq_ok.mp k
  have hpasses := Passes.of_settle hb
  obtain ⟨s₃, s₄, hg, k₂⟩ := bind_eq_ok.mp k₁
  cases hg
  obtain ⟨signature, s₅, hs, k₃⟩ := bind_eq_ok.mp k₂
  obtain ⟨hsig, rfl⟩ := signatureOf_eq_ok hs
  obtain ⟨_, s₆, hm, k₄⟩ := bind_eq_ok.mp k₃
  cases hm
  cases hd : f.result with
  | some result =>
    simp only [hd] at k₄
    cases k₄
    exact .mk hpasses hsig (by simp [hd])
  | none =>
    cases hr : signature.result with
    | none =>
      simp only [hd, hr] at k₄
      cases k₄
      have hfun := FunctionRun.mk hpasses hsig (by simp [hr])
      rwa [hr] at hfun
    | some result =>
      by_cases hv : s₅.valuedReturn = true
      · simp only [hd, hr, hv] at k₄
        cases k₄
        have hfun := FunctionRun.mk hpasses hsig (fun _ _ => hv)
        simp only [Checker.withSignature, hr, hv] at hfun
        exact hfun
      · simp only [hd, hr, hv] at k₄
        cases k₄

theorem FunctionsRun.of_check {fs : List Function} {s s' : Checker} {ts : List Typed.Function}
    (h : checkFunctions fs s = .ok ts s') : FunctionsRun fs s ts s' := by
  induction fs generalizing s ts with
  | nil =>
    cases h
    exact .nil
  | cons f fs ih =>
    obtain ⟨t, s₁, ht, k⟩ := bind_eq_ok.mp h
    obtain ⟨rest, s₂, hr, k₁⟩ := bind_eq_ok.mp k
    cases k₁
    exact .cons (.of_check ht) (ih hr)

/-- Functions made known to callers, each under a name of its own. -/
inductive DeclareRun : List Function → Checker → Checker → Prop
  | nil {s} : DeclareRun [] s s
  | cons {f fs s s'} (hn : s.signatures.find? f.name = none) (he : f.name ≠ s.options.entryName)
      (hh : ∀ h ∈ Host.all, bareName h.target ≠ f.name)
      (hp : (f.parameters.map (·.name)).Nodup)
      (hs : DeclareRun fs (s.withSignature f.name f.signature) s') : DeclareRun (f :: fs) s s'

theorem checkParameters_eq_ok {function : String} {earlier : List String} {ps : List Parameter}
    {s s' : Checker} (h : checkParameters function earlier ps s = .ok () s') :
    s' = s ∧ (ps.map (·.name)).Nodup ∧ ∀ p ∈ ps, p.name ∉ earlier := by
  induction ps generalizing earlier s with
  | nil =>
    cases h
    simp
  | cons p ps ih =>
    rw [checkParameters] at h
    by_cases hc : earlier.contains p.name = true
    · simp only [hc, if_true] at h
      cases h
    · simp only [hc] at h
      obtain ⟨rfl, hd, hrest⟩ := ih h
      simp only [List.contains_eq_mem, decide_eq_true_eq] at hc
      refine ⟨rfl, ?_, ?_⟩
      · rw [List.map_cons, List.nodup_cons]
        refine ⟨?_, hd⟩
        intro hm
        obtain ⟨q, hq, hqp⟩ := List.mem_map.mp hm
        exact hrest q hq (by simp [hqp])
      · intro q hq
        obtain rfl | hq := List.mem_cons.mp hq
        · exact hc
        · exact fun hm => hrest q hq (List.mem_cons_of_mem _ hm)

theorem DeclareRun.of_check {fs : List Function} {s s' : Checker}
    (h : declareFunctions fs s = .ok () s') : DeclareRun fs s s' := by
  induction fs generalizing s with
  | nil =>
    cases h
    exact .nil
  | cons f fs ih =>
    obtain ⟨_, s₁, hf, k⟩ := bind_eq_ok.mp h
    obtain ⟨s₂, s₃, hg, k₁⟩ := bind_eq_ok.mp hf
    cases hg
    by_cases hc : (s.signatures.contains f.name || f.name = s.options.entryName ||
        Host.all.any (fun h => bareName h.target == f.name)) = true
    · simp only [hc, if_true] at k₁
      cases k₁
    · simp only [hc] at k₁
      obtain ⟨_, s₄, hp, k₂⟩ := bind_eq_ok.mp k₁
      obtain ⟨rfl, hnodup, _⟩ := checkParameters_eq_ok hp
      cases k₂
      simp only [Table.contains, Bool.or_eq_true, decide_eq_true_eq, not_or, Bool.not_eq_true,
        Option.isSome_eq_false_iff, Option.isNone_iff_eq_none, List.any_eq_false,
        beq_iff_eq] at hc
      exact .cons hc.1.1 hc.1.2 hc.2 hnodup (ih k)

/-- A program that is accepted: its functions are declared, then run over in order, and then its
top-level statements. -/
inductive ProgramRun (p : Program) (options : Options) : Typed.Program → Checker → Prop
  | mk {s ts s₁ body s₂} (hw : Text.isWord options.entryName = true)
      (hd : DeclareRun p.functions (.new options) s) (hf : FunctionsRun p.functions s ts s₁)
      (he : Passes {} [] p.body .empty (s₁.reported (.checkingEntry s₁.options.entryName)) body s₂) :
      ProgramRun p options
        ⟨ts, s₁.options.entryName, [], none, body, p.bodySpan, s₂.storage, p.bodySpan⟩ s₂

theorem ProgramRun.of_check {p : Program} {options : Options} {typed : Typed.Program} {s : Checker}
    (h : p.check options = .ok typed s) : ProgramRun p options typed s := by
  obtain ⟨c, s₁, hg, k⟩ := bind_eq_ok.mp h
  cases hg
  by_cases hw : (!Text.isWord options.entryName) = true
  · rw [show (Checker.new options).options.entryName = options.entryName from rfl, if_pos hw] at k
    cases k
  · rw [show (Checker.new options).options.entryName = options.entryName from rfl, if_neg hw] at k
    obtain ⟨_, s₂, hd, k₁⟩ := bind_eq_ok.mp k
    obtain ⟨functions, s₃, hf, k₂⟩ := bind_eq_ok.mp k₁
    obtain ⟨entry, s₄, he, k₃⟩ := bind_eq_ok.mp k₂
    cases k₃
    obtain ⟨c, s₅, hg, k₄⟩ := bind_eq_ok.mp he
    cases hg
    obtain ⟨_, s₆, hr, k₅⟩ := bind_eq_ok.mp k₄
    cases hr
    obtain ⟨body, s₇, hb, k₆⟩ := bind_eq_ok.mp k₅
    cases k₆
    exact .mk (by simpa using hw) (.of_check hd) (.of_check hf) (.of_settle hb)

end Numlet
