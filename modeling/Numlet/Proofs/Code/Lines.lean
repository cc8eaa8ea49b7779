import Numlet.Proofs.Code.Conversions
import Numlet.Code.Form

/-!
The lines of a module's text. A line that reads as a conversion comes from that conversion in the code of
one of the functions.
-/
namespace Numlet

/-- A line without the blanks before it. -/
def unindented (line : String) : List Char := line.toList.dropWhile (· == ' ')

/-- How many lines of a module read as the given text. -/
def WatModule.lineCount (m : WatModule) (text : String) : Nat :=
  m.lines.countP fun line => unindented line = text.toList

theorem unindented_blanks (n : Nat) (line : String) :
    unindented (String.ofList (List.replicate n ' ') ++ line) = unindented line := by
  unfold unindented
  rw [String.toList_append, String.toList_ofList]
  induction n with
  | zero => rfl
  | succ n ih => exact ih

theorem unindented_two (line : String) : unindented ("  " ++ line) = unindented line :=
  unindented_blanks 2 line

theorem countP_indented (q : List Char → Bool) (depth : Nat) (code : List Instr) :
    (Instr.indented depth code).countP (fun line => q (unindented line)) =
      code.countP fun i => q (unindented i.text) := by
  induction code generalizing depth with
  | nil => rfl
  | cons i code ih =>
    rw [Instr.indented, List.countP_cons, List.countP_cons, ih, unindented_blanks]

/-- The texts of the conversions that lose something. -/
def Conversion.narrowing : List String := [Conversion.text .i32OfI64, Conversion.text .f32OfF64]

theorem head?_unindented_append {front : String} {c : Char} (h : (unindented front).head? = some c)
    (rest : String) : (unindented (front ++ rest)).head? = some c := by
  unfold unindented at h ⊢
  rw [String.toList_append, List.dropWhile_append]
  split
  · next hnil =>
    rw [List.isEmpty_iff] at hnil
    rw [hnil] at h
    cases h
  · rw [List.head?_append, h]
    rfl

/-- A line that starts with a parenthesis is none of them. -/
theorem unindented_ne_narrowing {text : String} (ht : text ∈ Conversion.narrowing) {line : String}
    {c : Char} (hc : (unindented line).head? = some c) (hp : c = '(' ∨ c = ')') :
    unindented line ≠ text.toList := by
  intro heq
  rw [heq] at hc
  simp only [Conversion.narrowing, List.mem_cons, List.not_mem_nil, or_false] at ht
  obtain rfl | rfl := ht <;> obtain rfl | rfl := hp <;> cases hc

theorem unindented_name (t : NumType) (rest : String) :
    unindented (t.name ++ rest) = (t.name ++ rest).toList := by
  cases t <;> simp [unindented, NumType.name]

theorem NumericOp.text_not_mem_narrowing (op : NumericOp) (t : NumType) :
    op.text t ∉ Conversion.narrowing := by
  cases op <;> cases t <;> decide

/-- No other instruction reads as a narrowing conversion. -/
theorem turns_of_text {text : String} (ht : text ∈ Conversion.narrowing) {i : Instr}
    (h : unindented i.text = text.toList) : i.turns = true := by
  -- Apart from operations on numbers the first characters tell them apart.
  have hfront : (unindented i.text).take 6 ∈ ["i32.wr".toList, "f32.de".toList] := by
    rw [h]
    revert ht
    simp only [Conversion.narrowing, List.mem_cons, List.not_mem_nil, or_false]
    rintro (rfl | rfl)
    · exact .inl rfl
    · exact .inr rfl
  cases i with
  | convert | verbatim => rfl
  | numeric op t =>
    have htext : op.text t = text := by
      change unindented (op.text t) = text.toList at h
      unfold NumericOp.text at h ⊢
      rw [String.append_assoc, unindented_name] at h
      rw [String.append_assoc]
      exact String.toList_inj.mp h
    exact absurd (htext ▸ ht) (op.text_not_mem_narrowing t)
  | const t v | eqz t | ifValue t => cases t <;> simp [unindented, Instr.text, NumType.name] at hfront
  | block l | loop l | br l | brIf l => cases l <;> simp [unindented, Instr.text, Label.text] at hfront
  | getLocal | setLocal | call | ifThen | orElse | finish | ret | drop | unreachable =>
    simp [unindented, Instr.text, signed] at hfront

section Counts

variable {text : String} (ht : text ∈ Conversion.narrowing)
include ht

theorem countP_lines (f : FunctionForm) :
    f.lines.countP (fun line => unindented line = text.toList) =
      f.body.countP fun i => unindented i.text = text.toList := by
  have hparen : (unindented f.header).head? = some '(' := by
    unfold FunctionForm.header
    simp only [String.append_assoc]
    exact head?_unindented_append rfl _
  have hheader : unindented f.header ≠ text.toList := unindented_ne_narrowing ht hparen (.inl rfl)
  have hclose : unindented ")" ≠ text.toList :=
    unindented_ne_narrowing ht (c := ')') rfl (.inr rfl)
  have hlocals : (f.locals.map fun l => "  (local " ++ signed l.1 ++ " " ++ l.2.name ++ ")").countP
      (fun line => unindented line = text.toList) = 0 := by
    rw [List.countP_eq_zero, List.forall_mem_map]
    intro l _
    have hparen : (unindented ("  (local " ++ signed l.1 ++ " " ++ l.2.name ++ ")")).head? =
        some '(' := by
      simp only [String.append_assoc]
      exact head?_unindented_append rfl _
    simpa using unindented_ne_narrowing ht hparen (.inl rfl)
  unfold FunctionForm.lines
  simp only [List.countP_append, List.countP_singleton, hheader, hclose, hlocals, decide_false]
  simpa using countP_indented (fun line => line = text.toList) 1 f.body

/-- The lines that read as a narrowing conversion stand in the code. -/
theorem WatModule.lineCount_eq (m : WatModule) :
    m.lineCount text =
      (m.functions.flatMap (·.body)).countP fun i => unindented i.text = text.toList := by
  have hopen : unindented "(module" ≠ text.toList :=
    unindented_ne_narrowing ht (c := '(') rfl (.inl rfl)
  have hclose : unindented ")" ≠ text.toList :=
    unindented_ne_narrowing ht (c := ')') rfl (.inr rfl)
  have himports : (m.imports.map Host.importText).countP
      (fun line => unindented line = text.toList) = 0 := by
    rw [List.countP_eq_zero, List.forall_mem_map]
    intro host _
    have hparen : (unindented host.importText).head? = some '(' := by
      unfold Host.importText
      simp only [String.append_assoc]
      exact head?_unindented_append rfl _
    simpa using unindented_ne_narrowing ht hparen (.inl rfl)
  have hfunctions : ∀ fs : List FunctionForm,
      (fs.flatMap FunctionForm.lines).countP (fun line => unindented line = text.toList) =
        (fs.flatMap (·.body)).countP fun i => unindented i.text = text.toList := by
    intro fs
    induction fs with
    | nil => rfl
    | cons f fs ih =>
      rw [List.flatMap_cons, List.flatMap_cons, List.countP_append, List.countP_append, ih,
        countP_lines ht]
  unfold WatModule.lineCount WatModule.lines
  simp only [List.countP_append, List.countP_singleton, hopen, hclose, decide_false, List.countP_map,
    Function.comp_def, unindented_two, hfunctions]
  rw [List.countP_map] at himports
  simp only [Function.comp_def] at himports
  simp [himports]

/-- Among them are only the conversions of the coercions. -/
theorem countP_turned {code : List Instr} {ks : List Coercion}
    (hcode : code.filter Instr.turns = Coercion.turned ks) :
    code.countP (fun i => unindented i.text = text.toList) =
      (Coercion.turned ks).countP fun i => unindented i.text = text.toList := by
  rw [← hcode, List.countP_filter]
  apply List.countP_congr
  intro i _
  simp only [decide_eq_true_eq, Bool.and_eq_true]
  exact ⟨fun h => ⟨h, turns_of_text ht h⟩, And.left⟩

end Counts

/-- The written coercions between two types. -/
def Coercion.between (ks : List Coercion) (source target : NumType) : Nat :=
  ks.countP fun k => k.source = source ∧ k.target = target

theorem Conversion.source_ne_target (c : Conversion) : c.source ≠ c.target := by
  cases c <;> decide

theorem Conversion.unindented_text (c : Conversion) : unindented c.text = c.text.toList := by
  cases c <;> rfl

theorem Conversion.eq_of_text_eq {c c' : Conversion} (h : c.text = c'.text) : c = c' := by
  revert h
  cases c <;> cases c' <;> decide

theorem Conversion.text_inj {c c' : Conversion} : c.text = c'.text ↔ c = c' :=
  ⟨Conversion.eq_of_text_eq, congrArg _⟩

theorem countP_coerced (source target : NumType) (c : Conversion) :
    (coerced source target).countP (fun i => unindented i.text = c.text.toList) =
      if source = c.source ∧ target = c.target then 1 else 0 := by
  have hcount : ∀ c', [Instr.convert c'].countP (fun i => unindented i.text = c.text.toList) =
      if c' = c then 1 else 0 := by
    intro c'
    rw [List.countP_singleton]
    simp only [Instr.text, Conversion.unindented_text, String.toList_inj, Conversion.text_inj,
      decide_eq_true_eq]
  unfold coerced
  by_cases hsame : source = target
  · have hno : ¬(source = c.source ∧ target = c.target) :=
      fun h => c.source_ne_target (h.1.symm.trans (hsame.trans h.2))
    rw [if_pos hsame, if_neg hno]
    rfl
  · rw [if_neg hsame]
    cases hc : Conversion.between? source target with
    | none =>
      have hno : ¬(source = c.source ∧ target = c.target) := fun h =>
        (by rw [Conversion.between?_eq_some_iff.mpr h] at hc; cases hc)
      rw [if_neg hno]
      rfl
    | some c' =>
      obtain ⟨rfl, rfl⟩ := Conversion.between?_eq_some_iff.mp hc
      refine (hcount c').trans (if_congr ⟨?_, fun h => ?_⟩ rfl rfl)
      · rintro rfl
        exact ⟨rfl, rfl⟩
      · exact Option.some.inj (hc.symm.trans (Conversion.between?_eq_some_iff.mpr h))

theorem countP_turned_eq (ks : List Coercion) (c : Conversion) :
    (Coercion.turned ks).countP (fun i => unindented i.text = c.text.toList) =
      Coercion.between ks c.source c.target := by
  induction ks with
  | nil => rfl
  | cons k ks ih =>
    rw [Coercion.turned_cons, List.countP_append, ih, countP_coerced, Coercion.between, Coercion.between,
      List.countP_cons, Nat.add_comm]
    simp

end Numlet
