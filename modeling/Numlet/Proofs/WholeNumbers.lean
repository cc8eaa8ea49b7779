import Mathlib.Data.Nat.Digits.Defs
import Numlet.Proofs.Code.Constants
import Numlet.Proofs.Identifiers
import Numlet.Proofs.Token.Longest
import Numlet.Proofs.Tree.Reached
import Numlet.Proofs.Validity

/-!
Whole numbers keep their values, from the digits in a source to the constants in a module. A token of digits
is read as the number that it spells, and every literal of a program that is lowered has one line in the code,
at a type that holds it.
-/
namespace Numlet

section Reading

/-- The number that digits spell, the highest first. -/
def decimal (digits : List Char) : Nat := Nat.ofDigits 10 (digits.reverse.map fun c => c.toNat - 48)

theorem digitsValue_eq_decimal (digits : List Char) : Binary64.digitsValue digits = decimal digits := by
  have hfold : ∀ ds : List Char, Binary64.digitsValue ds.reverse =
      Nat.ofDigits 10 (ds.map fun c => c.toNat - 48) := by
    intro ds
    induction ds with
    | nil => rfl
    | cons d ds ih =>
      rw [List.map_cons, Nat.ofDigits_cons, ← ih, Binary64.digitsValue, List.reverse_cons,
        List.foldl_append]
      exact Nat.add_comm _ _
  have hreverse := hfold digits.reverse
  rwa [List.reverse_reverse] at hreverse

theorem integer?_of_isDigits {digits : List Char} (h : Pattern.IsDigits digits) :
    Binary64.integer? digits = some (decimal digits : Int) := by
  obtain ⟨hne, hall⟩ := h
  have hsign : Binary64.splitSign digits = (false, digits) := by
    unfold Binary64.splitSign
    split
    · exact absurd (hall '-' List.mem_cons_self) (by decide)
    · exact absurd (hall '+' List.mem_cons_self) (by decide)
    · rfl
  have hdigits : Binary64.digits? digits = some (decimal digits) := by
    have hproper : (digits.isEmpty || digits.any fun c => !c.isDigit) = false := by
      simpa [hne] using hall
    rw [Binary64.digits?, hproper, digitsValue_eq_decimal]
    rfl
  simp only [Binary64.integer?, hsign, hdigits]
  rfl

theorem literal?_of_isDigits {text : String} (h : Pattern.IsDigits text.toList) :
    Reading.literal? text = if decimal text.toList < 2 ^ 63
      then some (.int (decimal text.toList)) else none := by
  have hpoint : text.toList.contains '.' = false := by
    apply Bool.eq_false_iff.mpr
    intro hmem
    exact absurd (h.2 '.' (List.contains_iff_mem.mp hmem)) (by decide)
  rw [Reading.literal?, hpoint, integer?_of_isDigits h]
  simp only [Bool.false_eq_true, if_false, Option.bind_some]
  split
  · rw [if_pos (by omega)]
  · rw [if_neg (by omega)]

variable (expr : Reading.ExprReader) {c : Cursor}

theorem opening_eq_primary (h : Grammar.standard.opening? c.kind = some .primary) :
    Reading.opening .standard expr c = Reading.primary c := by
  rw [Reading.opening_run, h]

/-- A token of digits opens an expression with its number, or it is refused where it stands. -/
theorem opening_number (hkind : c.kind = .number) (h : Pattern.IsDigits c.current.value.toList) :
    Reading.opening .standard expr c =
      if decimal c.current.value.toList < 2 ^ 63 then
        .ok (.literal (.int (decimal c.current.value.toList)) c.current.span) c.advance
      else .error ⟨.malformedNumber c.current.value, c.current.span.start⟩ c := by
  have hcurrent : c.current.kind = .number := hkind
  rw [opening_eq_primary expr (by rw [hkind]; rfl), Reading.primary, bind_of_ok (get_eq_ok.mpr ⟨rfl, rfl⟩)]
  simp only [hcurrent, literal?_of_isDigits h]
  split
  · rfl
  · rfl

/-- A truth value opens an expression as a one or a zero. -/
theorem opening_truth (value : Bool) (hkind : c.kind = if value then .trueWord else .falseWord) :
    Reading.opening .standard expr c =
      .ok (.literal (.int value.toNat) c.current.span) c.advance := by
  have hcurrent : c.current.kind = if value then .trueWord else .falseWord := hkind
  have hprimary : Grammar.standard.opening? c.kind = some .primary := by
    rw [hkind]
    cases value <;> rfl
  rw [opening_eq_primary expr hprimary, Reading.primary, bind_of_ok (get_eq_ok.mpr ⟨rfl, rfl⟩)]
  simp only [hcurrent]
  cases value <;> rfl

end Reading

section Code

theorem Typed.typedLiteral?_map_snd (parts : List Typed.Expr) :
    (parts.filterMap Expr.typedLiteral?).map Prod.snd = parts.filterMap Expr.literal? := by
  rw [List.map_filterMap]
  congr 1
  funext x
  cases x <;> rfl

theorem Literal.typeFor_int (n : Int) (hint : Option NumType) :
    (Literal.int n).typeFor hint = .i32 ∨ (Literal.int n).typeFor hint = .i64 := by
  have hplain : NumType.forInteger n = .i32 ∨ NumType.forInteger n = .i64 := by
    unfold NumType.forInteger
    split
    · exact .inl rfl
    · exact .inr rfl
  simp only [typeFor]
  split
  · exact .inr rfl
  · exact hplain

/-- A whole number as a constant of a type that holds it, and the line that it is written with. -/
def Constant.IsWhole (t : NumType) (n : Int) : Prop :=
  (t = .i32 ∧ -2 ^ 31 ≤ n ∧ n < 2 ^ 31 ∧ (Instr.const t (.int n)).text = "i32.const " ++ toString n) ∨
    t = .i64 ∧ -2 ^ 63 ≤ n ∧ n < 2 ^ 63 ∧ (Instr.const t (.int n)).text = "i64.const " ++ toString n

/-- Code has one line for every literal of a body, in their order. Its other constants are those that the
checked body brings along. -/
structure Typed.Function.KeepsLiterals (f : Function) (body : List Numlet.Stmt) (code : List Instr) :
    Prop where
  lines : code.filter Instr.isConst = f.constants.map Constant.instr
  literals : (f.constants.filterMap Constant.written?).map Prod.snd = literalsOfStmts body
  whole : ∀ t n, .written t (.int n) ∈ f.constants → Constant.IsWhole t n

variable {p : Program} {options : Options} {typed : Typed.Program} {z : Checker}

theorem ProgramRun.isWhole (h : ProgramRun p options typed z) (hp : ∀ l ∈ p.literals, l.InRange)
    {f : Typed.Function} (hf : f ∈ typed.bodies) {t : NumType} {n : Int}
    (hn : .written t (.int n) ∈ f.constants) : Constant.IsWhole t n := by
  have hmem : (t, .int n) ∈ f.constants.filterMap Constant.written? := List.mem_filterMap.mpr ⟨_, hn, rfl⟩
  rw [Typed.Function.constants, Typed.written_constantsOfStmts, List.mem_filterMap] at hmem
  obtain ⟨x, hx, hliteral⟩ := hmem
  cases x with
  | literal value t' span =>
    cases hliteral
    obtain ⟨hint, htype⟩ : ∃ hint, t = (Literal.int n).typeFor hint := (h.sound f hf).exprs _ hx
    have hfits := h.literal_fits hp hf hx
    obtain ht | ht := Literal.typeFor_int n hint
    · obtain rfl := htype.trans ht
      obtain ⟨hlow, hhigh⟩ := hfits
      exact .inl ⟨rfl, hlow, by omega, rfl⟩
    · obtain rfl := htype.trans ht
      obtain ⟨hlow, hhigh⟩ := hfits
      exact .inr ⟨rfl, hlow, by omega, rfl⟩
  | var | binary | unary | update | assign | convert | call => cases hliteral

theorem ProgramRun.keepsLiterals (h : ProgramRun p options typed z) (hp : ∀ l ∈ p.literals, l.InRange)
    {f : Typed.Function} (hf : f ∈ typed.bodies) {body : List Stmt} (hsource : BodySource p f body) :
    f.KeepsLiterals body (f.code typed) where
  lines := Typed.Function.code_consts (h.sound f hf)
  literals := by
    rw [Typed.Function.constants, Typed.written_constantsOfStmts, Typed.typedLiteral?_map_snd,
      hsource.literals_eq]
  whole _ _ hn := h.isWhole hp hf hn

end Code

/-- A token of digits is read as the number that it spells if that is below `2 ^ 63`, and is refused at its
place otherwise; `true` and `false` are read as one and zero. In a module of a program every literal of the
source has one line, in the order of the code, whatever types it was checked at before. A whole number is
written in full, at a type that holds it. -/
theorem whole_numbers_kept :
    (∀ (expr : Reading.ExprReader) (c : Cursor), c.kind = .number →
      Pattern.IsDigits c.current.value.toList → Reading.opening .standard expr c =
        if decimal c.current.value.toList < 2 ^ 63 then
          .ok (.literal (.int (decimal c.current.value.toList)) c.current.span) c.advance
        else .error ⟨.malformedNumber c.current.value, c.current.span.start⟩ c) ∧
    (∀ (expr : Reading.ExprReader) (c : Cursor) (value : Bool),
      c.kind = (if value then .trueWord else .falseWord) →
      Reading.opening .standard expr c = .ok (.literal (.int value.toNat) c.current.span) c.advance) ∧
    ∀ (p : Program) (options : Options) (typed : Typed.Program) (z : Checker) (m : WatModule)
      (z' : Emitter), (∀ l ∈ p.literals, l.InRange) → p.check options = .ok typed z →
      typed.lower options = .ok m z' →
      List.Forall₂ (fun body form => ∃ f ∈ typed.bodies, form.name = f.name ∧
        f.KeepsLiterals body form.body) (p.functions.map (·.body) ++ [p.body]) m.functions := by
  refine ⟨fun expr c hkind h => opening_number expr hkind h,
    fun expr c value hkind => opening_truth expr value hkind, ?_⟩
  intro p options typed z m z' hp hc hl
  have hrun := ProgramRun.of_check hc
  obtain ⟨-, hfunctions, -⟩ := Typed.Program.of_lower hrun.lowerable hl
  rw [hfunctions, Typed.Program.forms]
  have hpaired := (List.forall₂_and_left _ _).mpr ⟨fun f hf => hf, hrun.function_sources.flip⟩
  refine List.rel_append ?_ (.cons ⟨typed.entry, ?_, rfl, ?_⟩ .nil)
  · rw [List.forall₂_map_left_iff, List.forall₂_map_right_iff]
    refine hpaired.flip.imp ?_
    rintro g f ⟨hf, -, -, hsource⟩
    have hbody : f ∈ typed.bodies := List.mem_append_left _ hf
    exact ⟨f, hbody, rfl, hrun.keepsLiterals hp hbody hsource⟩
  · exact List.mem_append_right _ List.mem_cons_self
  · exact hrun.keepsLiterals hp (List.mem_append_right _ List.mem_cons_self) hrun.entry_source.2

/-- The smallest number that is too large, and literals at both types beside the constants of operators. -/
theorem whole_numbers_kept_beside_operators :
    (∀ expr c, c = Cursor.ofTokens "" [⟨.number, "9223372036854775808", .ofLength "" 0 19⟩] →
      Reading.opening .standard expr c = .error ⟨.malformedNumber "9223372036854775808", ⟨0, ""⟩⟩ c) ∧
    ∃ p typed z m z' form,
      Program.ofSource "let a: i64 = 7; print a + 3000000000; print -5 && true;" "" = .ok p ∧
      p.check {} = .ok typed z ∧ typed.lower {} = .ok m z' ∧ m.functions = [form] ∧
      (form.body.filter Instr.isConst).map Instr.text = ["i64.const 7", "i64.const 3000000000",
        "i32.const 5", "i32.const -1", "i32.const 1", "i32.const 0", "i32.const 0"] ∧
      ∃ f ∈ typed.bodies, f.KeepsLiterals p.body form.body := by
  obtain ⟨hnumber, -, hkept⟩ := whole_numbers_kept
  constructor
  · rintro expr c rfl
    have hdigits : Pattern.IsDigits "9223372036854775808".toList :=
      ⟨by decide, List.all_eq_true.mp (by decide)⟩
    have hread := hnumber expr
      (Cursor.ofTokens "" [⟨.number, "9223372036854775808", .ofLength "" 0 19⟩]) rfl hdigits
    exact hread.trans (if_neg (by decide +kernel))
  · obtain ⟨typed, m, z', hsource, hl, htexts⟩ := exists_module_of_decide
      "let a: i64 = 7; print a + 3000000000; print -5 && true;" "" {}
      (P := fun m => m.functions.map (fun form => (form.body.filter Instr.isConst).map Instr.text) =
        [["i64.const 7", "i64.const 3000000000", "i32.const 5", "i32.const -1", "i32.const 1", "i32.const 0",
          "i32.const 0"]]) (by decide +kernel)
    obtain ⟨p, z, hp, hc⟩ := checkSource_eq_ok.mp hsource
    have hall := hkept p {} typed z m z' (Program.readable_of_source hp).literals hc hl
    obtain ⟨form, hform, htext⟩ := List.map_eq_singleton_iff.mp htexts
    rw [hform] at hall
    have hnone : p.functions = [] := by simpa using hall.length_eq
    rw [hnone] at hall
    obtain - | ⟨⟨f, hf, -, hliterals⟩, -⟩ := hall
    exact ⟨p, typed, z, m, z', form, hp, hc, hl, hform, htext, f, hf, hliterals⟩

end Numlet
