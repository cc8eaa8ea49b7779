import Numlet.Proofs.Check.Locals
import Numlet.Proofs.Code.Lines
import Numlet.Proofs.Tree.Spelled

/-!
What the checker accepts can be written as code, and nothing is narrowed on the way that the source does
not ask to be narrowed. Lowering fails for the first conversion from a fraction to a whole number that is
written in the source, and for nothing else.
-/
namespace Numlet

/-- The conversions that a program writes, in the order of its code. -/
def Typed.Program.conversions (p : Typed.Program) : List Coercion := Typed.conversions p.exprs

theorem Program.spelled_of_source {source file : String} {p : Program}
    (h : Program.ofSource source file = .ok p) : p.Spelled := (Program.readable_of_source h).names

section Accounts

variable {p : Program} {options : Options} {typed : Typed.Program} {z : Checker}

theorem ProgramRun.accounts (h : ProgramRun p options typed z) (hspelled : p.Spelled) :
    Coercion.Accounts typed.coercions typed.exprs := by
  have heach : ∀ f ∈ typed.bodies, Coercion.Accounts (f.coercions typed) (Typed.exprsOfStmts f.body) :=
    fun f hf => (h.sound f hf).accounts fun _ _ hx => h.slotType_eq hspelled hf hx
  unfold Typed.Program.coercions Typed.Program.exprs
  generalize typed.bodies = fs at heach
  induction fs with
  | nil => exact .nil
  | cons f fs ih =>
    rw [List.forall_mem_cons] at heach
    exact heach.1.append (ih heach.2)

end Accounts

namespace Coercion

variable {ks : List Coercion} {parts : List Typed.Expr}

/-- Only what is written can be refused. -/
theorem Accounts.firstRefusal_eq (h : Accounts ks parts) :
    firstRefusal ks = firstRefusal (Typed.conversions parts) := by
  rw [← h.written]
  have hw := h.widens
  clear h
  induction ks with
  | nil => rfl
  | cons k ks ih =>
    rw [List.forall_mem_cons] at hw
    cases hk : k.written with
    | true => rw [List.filter_cons_of_pos hk, firstRefusal_cons, firstRefusal_cons, ih hw.2]
    | false =>
      rw [List.filter_cons_of_neg (by simp [hk]), firstRefusal_cons,
        refusal?_eq_none_of_rank_le (hw.1 hk), ih hw.2]
      rfl

/-- What loses something is written. -/
theorem Accounts.between_eq (h : Accounts ks parts) {c : Conversion}
    (hc : c.target.rank < c.source.rank) :
    between ks c.source c.target = between (Typed.conversions parts) c.source c.target := by
  rw [← h.written, between, between, List.countP_filter]
  apply List.countP_congr
  intro k hk
  cases hw : k.written with
  | true => simp
  | false =>
    have hle := h.widens k hk hw
    simp only [decide_eq_true_eq, Bool.and_false, Bool.false_eq_true, iff_false]
    rintro ⟨hs, ht⟩
    rw [hs, ht] at hle
    omega

theorem firstRefusal_eq_some_iff {d : Diagnostic} :
    firstRefusal ks = some d ↔ ∃ k, ks.find? isRefused = some k ∧
      d = ⟨.unsupportedConversion k.source k.target, k.span.start⟩ := by
  induction ks with
  | nil => simp
  | cons k ks ih =>
    rw [firstRefusal_cons, List.find?_cons]
    cases hk : k.isRefused with
    | true => simp [refusal?, hk, eq_comm]
    | false => simp [refusal?, hk, ih]

end Coercion

theorem Typed.Function.turned_code (f : Typed.Function) (p : Typed.Program) :
    (f.code p).filter Instr.turns = Coercion.turned (f.coercions p) := by
  have hend : Node.turned f.endNodes = [] := by
    unfold Typed.Function.endNodes
    split <;> rfl
  change Node.turned (f.nodes p) = _
  unfold Typed.Function.nodes
  rw [Node.turned_append, hend, List.append_nil, Typed.Context.turned_stmtsNodes]
  rfl

/-- The conversions in the forms of a program are those of its coercions. -/
theorem Typed.Program.turned_forms (p : Typed.Program) (options : Options) :
    ((p.forms options).flatMap (·.body)).filter Instr.turns = Coercion.turned p.coercions := by
  have hbodies : (p.forms options).flatMap (·.body) = p.bodies.flatMap (·.code p) := by
    simp [Typed.Program.forms, Typed.Program.bodies, List.flatMap_map, Typed.Function.form]
  rw [hbodies, Typed.Program.coercions]
  generalize p.bodies = fs
  induction fs with
  | nil => rfl
  | cons f fs ih =>
    rw [List.flatMap_cons, List.flatMap_cons, List.filter_append, ih, f.turned_code,
      Coercion.turned_append]

/-- Every coercion that the source does not write widens. Lowering fails exactly for the first written
conversion from a fraction to a whole number. What it gives otherwise holds the conversions of the
coercions and no others, and it narrows exactly where the source says so. -/
theorem lower_refuses_only_written_conversions {p : Program} {options : Options}
    {typed : Typed.Program} {z : Checker}
    (hp : p.Spelled ∨ ∃ source file, Program.ofSource source file = .ok p)
    (h : p.check options = .ok typed z) :
    (∀ k ∈ typed.coercions, k.written = false → k.source.rank ≤ k.target.rank) ∧
    (∀ d, (∃ z', typed.lower options = .error d z') ↔
      ∃ k, typed.conversions.find? Coercion.isRefused = some k ∧
        d = ⟨.unsupportedConversion k.source k.target, k.span.start⟩) ∧
    ∀ m z', typed.lower options = .ok m z' →
      (m.functions.flatMap (·.body)).filter Instr.turns = Coercion.turned typed.coercions ∧
      m.lineCount "i32.wrap_i64" = Coercion.between typed.conversions .i64 .i32 ∧
      m.lineCount "f32.demote_f64" = Coercion.between typed.conversions .f64 .f32 := by
  have hspelled : p.Spelled := by
    obtain hp | ⟨source, file, hp⟩ := hp
    · exact hp
    · exact Program.spelled_of_source hp
  have hrun := ProgramRun.of_check h
  have haccounts := hrun.accounts hspelled
  have hlower := typed.lower_run hrun.lowerable options
  refine ⟨haccounts.widens, fun d => ?_, fun m z' hm => ?_⟩
  · rw [← Coercion.firstRefusal_eq_some_iff, Typed.Program.conversions, ← haccounts.firstRefusal_eq]
    constructor
    · rintro ⟨z', hz'⟩
      cases hr : Coercion.firstRefusal typed.coercions with
      | some d' =>
        rw [hr] at hlower
        obtain ⟨z'', hz''⟩ := hlower
        rw [hz'] at hz''
        cases hz''
        rfl
      | none =>
        rw [hr] at hlower
        obtain ⟨imports, z'', hz'', -⟩ := hlower
        rw [hz'] at hz''
        cases hz''
    · intro hr
      rw [hr] at hlower
      exact hlower
  · cases hr : Coercion.firstRefusal typed.coercions with
    | some d =>
      rw [hr] at hlower
      obtain ⟨z'', hz''⟩ := hlower
      rw [hm] at hz''
      cases hz''
    | none =>
      rw [hr] at hlower
      obtain ⟨imports, z'', hz'', -⟩ := hlower
      rw [hm] at hz''
      cases hz''
      have hturned := typed.turned_forms options
      have hcount : ∀ c : Conversion, c.text ∈ Conversion.narrowing → c.target.rank < c.source.rank →
          (⟨imports, typed.forms options⟩ : WatModule).lineCount c.text =
            Coercion.between typed.conversions c.source c.target := by
        intro c hc hlt
        rw [WatModule.lineCount_eq hc, countP_turned hc hturned, countP_turned_eq,
          haccounts.between_eq hlt]
        rfl
      exact ⟨hturned, hcount .i32OfI64 (by simp [Conversion.narrowing]) (by decide),
        hcount .f32OfF64 (by simp [Conversion.narrowing]) (by decide)⟩

/-- The written conversion becomes the only narrowing line. -/
theorem lower_wraps_written_conversion :
    ∃ p typed z, Program.ofSource "let a: i64 = 5; let b = a as i32; b = b + 1.5;" "" = .ok p ∧
      p.check {} = .ok typed z ∧ (∀ d z', typed.lower {} ≠ .error d z') ∧
      ∀ m z', typed.lower {} = .ok m z' →
        m.lineCount "i32.wrap_i64" = 1 ∧ m.lineCount "f32.demote_f64" = 0 := by
  obtain ⟨typed, hsource, hnone, hwrap, hdemote⟩ := exists_ok_of_decide
    (P := fun typed : Typed.Program => typed.conversions.all (!·.isRefused) = true ∧
      Coercion.between typed.conversions .i64 .i32 = 1 ∧
      Coercion.between typed.conversions .f64 .f32 = 0)
    (x := checkSource "let a: i64 = 5; let b = a as i32; b = b + 1.5;" "" {}) (by decide +kernel)
  obtain ⟨p, z, hp, h⟩ := checkSource_eq_ok.mp hsource
  obtain ⟨-, herror, hok⟩ := lower_refuses_only_written_conversions (.inr ⟨_, _, hp⟩) h
  refine ⟨p, typed, z, hp, h, fun d z' hz' => ?_, fun m z' hm => ?_⟩
  · obtain ⟨k, hk, -⟩ := (herror d).mp ⟨z', hz'⟩
    have hall := List.all_eq_true.mp hnone k (List.mem_of_find?_eq_some hk)
    rw [List.find?_some hk] at hall
    cases hall
  · rw [← hwrap, ← hdemote]
    exact (hok m z' hm).2

end Numlet
