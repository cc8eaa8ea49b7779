import Mathlib.Data.List.Nodup
import Numlet.Proofs.Check.Locals
import Numlet.Proofs.Code.Validation

/-!
The declarations of a function in a module that is spelled with words. Every local that its code names is
declared exactly once, with the type that it was checked with.
-/
namespace Numlet

section Names

theorem bareName_of_head {x : String} (h : x.toList.head? ≠ some '$') : bareName x = x := by
  unfold bareName
  cases hx : x.toList with
  | nil => rw [List.dropWhile_nil, ← hx, String.ofList_toList]
  | cons c cs =>
    rw [hx, List.head?_cons] at h
    have hc : (c == '$') = false := by simpa using h
    rw [List.dropWhile_cons_of_neg (by simp [hc]), ← hx, String.ofList_toList]

theorem head_of_isWord {x : String} (h : Text.isWord x = true) :
    ∃ c, x.toList.head? = some c ∧ c ≠ '$' := by
  unfold Text.isWord at h
  split at h
  · cases h
  · next c cs hcs =>
    rw [Bool.and_eq_true] at h
    refine ⟨c, by rw [hcs]; rfl, ?_⟩
    rintro rfl
    exact absurd h.1 (by decide)

theorem bareName_of_isWord {x : String} (h : Text.isWord x = true) : bareName x = x := by
  obtain ⟨c, hc, hne⟩ := head_of_isWord h
  apply bareName_of_head
  rw [hc]
  exact fun heq => hne (Option.some.inj heq)

theorem bareName_slotName {x : String} (h : Text.isWord x = true) (n : Nat) :
    bareName (Checking.slotName x n) = Checking.slotName x n := by
  unfold Checking.slotName
  split
  · exact bareName_of_isWord h
  · obtain ⟨c, hc, hne⟩ := head_of_isWord h
    apply bareName_of_head
    rw [String.toList_append, String.toList_append, List.append_assoc, List.head?_append, hc]
    exact fun heq => hne (Option.some.inj heq)

theorem bareName_eq_of_signed {x y : String} (h : signed x = signed y) : bareName x = bareName y := by
  have hlist := congrArg String.toList h
  unfold signed at hlist
  rw [String.toList_append, String.toList_append] at hlist
  exact String.toList_inj.mp (List.append_cancel_left hlist)

/-- Names without signs are written apart. -/
theorem signed_inj {x y : String} (hx : bareName x = x) (hy : bareName y = y) :
    signed x = signed y ↔ x = y := by
  refine ⟨fun h => ?_, fun h => h ▸ rfl⟩
  rw [← hx, ← hy]
  exact bareName_eq_of_signed h

end Names

namespace Slots

variable {storage : Table NumType} {s s₁ s₂ : Slots}

/-- From `s` to `s'` the locals that `code` names have got slots. -/
structure After (storage : Table NumType) (s : Slots) (code : List Instr) (s' : Slots) : Prop where
  entries : ∃ new, s'.entries = s.entries ++ new ∧
    ∀ e ∈ new, e.2 = (storage.find? e.1).getD .i32 ∧ ∃ i ∈ code, i.local? = some e.1
  count : s'.parameterCount = s.parameterCount
  nodup : (s.entries.map (·.1)).Nodup → (s'.entries.map (·.1)).Nodup
  named : ∀ i ∈ code, ∀ x, i.local? = some x → x ∈ s'.entries.map (·.1)

theorem After.nil (s : Slots) : After storage s [] s :=
  ⟨⟨[], (List.append_nil _).symm, fun _ he => (nomatch he)⟩, rfl, id, fun _ hi => (nomatch hi)⟩

theorem After.append {code₁ code₂ : List Instr} (h₁ : After storage s code₁ s₁)
    (h₂ : After storage s₁ code₂ s₂) : After storage s (code₁ ++ code₂) s₂ where
  entries := by
    obtain ⟨new₁, he₁, hn₁⟩ := h₁.entries
    obtain ⟨new₂, he₂, hn₂⟩ := h₂.entries
    refine ⟨new₁ ++ new₂, by rw [he₂, he₁, List.append_assoc], ?_⟩
    rw [List.forall_mem_append]
    refine ⟨fun e he => ?_, fun e he => ?_⟩
    · obtain ⟨ht, i, hi, hx⟩ := hn₁ e he
      exact ⟨ht, i, List.mem_append_left _ hi, hx⟩
    · obtain ⟨ht, i, hi, hx⟩ := hn₂ e he
      exact ⟨ht, i, List.mem_append_right _ hi, hx⟩
  count := h₂.count.trans h₁.count
  nodup h := h₂.nodup (h₁.nodup h)
  named := by
    rw [List.forall_mem_append]
    refine ⟨fun i hi x hx => ?_, h₂.named⟩
    obtain ⟨new, he, -⟩ := h₂.entries
    rw [he, List.map_append]
    exact List.mem_append_left _ (h₁.named i hi x hx)

theorem after_touch (storage : Table NumType) (s : Slots) (i : Instr) :
    After storage s [i] (s.touch storage i) := by
  have halloc : ∀ x, i.local? = some x →
      After storage s [i] (s.alloc x ((storage.find? x).getD .i32)).2 := by
    intro x hx
    unfold alloc
    cases hf : s.find? x with
    | some slot =>
      have hmem : x ∈ s.entries.map (·.1) := by
        apply Decidable.byContradiction
        intro hno
        cases hf.symm.trans (findFrom_eq_none_iff.mpr hno)
      refine ⟨⟨[], (List.append_nil _).symm, fun _ he => (nomatch he)⟩, rfl, id, ?_⟩
      rw [List.forall_mem_singleton]
      intro y hy
      cases hx.symm.trans hy
      exact hmem
    | none =>
      have hno : x ∉ s.entries.map (·.1) := findFrom_eq_none_iff.mp hf
      refine ⟨⟨[(x, (storage.find? x).getD .i32)], rfl, ?_⟩, rfl, fun hnd => ?_, ?_⟩
      · exact List.forall_mem_singleton.mpr ⟨rfl, i, List.mem_singleton.mpr rfl, hx⟩
      · rw [List.map_append, List.nodup_append]
        refine ⟨hnd, by simp, fun y hy z hz hyz => hno ?_⟩
        rwa [hyz, show z = x from List.mem_singleton.mp hz] at hy
      · rw [List.forall_mem_singleton]
        intro y hy
        cases hx.symm.trans hy
        simp
  cases i with
  | getLocal x | setLocal x => exact halloc x rfl
  | const | numeric | eqz | convert | call | block | loop | ifThen | ifValue | orElse | finish | br | brIf
  | ret | drop | unreachable | verbatim =>
    refine ⟨⟨[], (List.append_nil _).symm, fun _ he => (nomatch he)⟩, rfl, id, ?_⟩
    exact List.forall_mem_singleton.mpr fun x hx => (nomatch hx)

theorem after_foldl (storage : Table NumType) (code : List Instr) (s : Slots) :
    After storage s code (code.foldl (touch storage) s) := by
  induction code generalizing s with
  | nil => exact .nil s
  | cons i code ih => exact (after_touch storage s i).append (ih _)

/-- The locals without the parameters, as they are declared. -/
theorem map_locals (s : Slots) :
    s.locals.map (fun l => (l.1, l.2.type)) = s.entries.drop s.parameterCount := by
  unfold locals
  rw [List.map_map]
  change (s.entries.zipIdx.drop s.parameterCount).map Prod.fst = _
  rw [List.map_drop, List.zipIdx_map_fst]

end Slots

/-- The only entry under a name. -/
theorem filter_eq_singleton {entries : List (String × NumType)} {P : String × NumType → Bool}
    {x : String} {t : NumType} (hnd : (entries.map (·.1)).Nodup) (hx : (x, t) ∈ entries)
    (hP : ∀ e ∈ entries, P e = true ↔ e.1 = x) : entries.filter P = [(x, t)] := by
  induction entries with
  | nil => cases hx
  | cons e rest ih =>
    rw [List.map_cons, List.nodup_cons] at hnd
    rw [List.forall_mem_cons] at hP
    obtain rfl | hx := List.mem_cons.mp hx
    · have hrest : rest.filter P = [] := by
        rw [List.filter_eq_nil_iff]
        exact fun e he hPe => hnd.1 (List.mem_map.mpr ⟨e, he, (hP.2 e he).mp hPe⟩)
      rw [List.filter_cons_of_pos (hP.1.mpr rfl), hrest]
    · have hne : ¬ P e = true :=
        fun hPe => hnd.1 (hP.1.mp hPe ▸ List.mem_map_of_mem hx)
      rw [List.filter_cons_of_neg hne]
      exact ih hnd.2 hx hP.2

namespace Typed.Function

variable {f : Function} {p : Program} {exportName : Option String}

theorem after_slots (f : Function) (p : Program) :
    Slots.After f.storage (.ofParameters f.parameters) (f.code p) (f.slots p) :=
  Slots.after_foldl _ _ _

/-- Every local has one slot. -/
theorem nodup_slots (h : (f.parameters.map (·.name)).Nodup) (p : Program) :
    ((f.slots p).entries.map (·.1)).Nodup :=
  (f.after_slots p).nodup (by simpa [Slots.ofParameters, Function.comp_def] using h)

/-- A form declares the slots of its function. -/
theorem declared_form : (f.form p exportName).declared = (f.slots p).entries := by
  obtain ⟨new, he, -⟩ := (f.after_slots p).entries
  have hc := (f.after_slots p).count
  unfold FunctionForm.declared form
  simp only [Slots.map_locals, he, hc, Slots.ofParameters]
  rw [List.drop_left' (by simp)]

/-- A slot has the type of its local. -/
theorem slotType_of_mem (hp : (f.parameters.map (·.name)).Nodup) {x : String} {t : NumType}
    (hx : (x, t) ∈ (f.slots p).entries) : f.slotType x = t := by
  obtain ⟨new, he, hnew⟩ := (f.after_slots p).entries
  have hnd := nodup_slots hp p
  rw [he, List.map_append, List.nodup_append] at hnd
  rw [he, List.mem_append] at hx
  unfold slotType
  obtain hx | hx := hx
  · obtain ⟨q, hq, hpair⟩ := List.mem_map.mp hx
    obtain ⟨rfl, rfl⟩ := Prod.mk.inj hpair
    have hfind : f.parameters.find? (·.name == q.name) = some q := by
      cases hfound : f.parameters.find? (·.name == q.name) with
      | none => exact absurd (List.find?_eq_none.mp hfound q hq) (by simp)
      | some r =>
        have hname : r.name = q.name := by simpa using List.find?_some hfound
        rw [List.inj_on_of_nodup_map hp (List.mem_of_find?_eq_some hfound) hq hname]
    rw [hfind]
    rfl
  · have hnone : f.parameters.find? (·.name == x) = none := by
      rw [List.find?_eq_none]
      intro q hq hname
      have hin : q.name ∈ (Slots.ofParameters f.parameters).entries.map (·.1) := by
        simpa [Slots.ofParameters] using ⟨q, hq, rfl⟩
      exact hnd.2.2 _ hin _ (List.mem_map_of_mem hx) (by simpa using hname)
    rw [hnone]
    exact (hnew _ hx).1.symm

/-- A local that has a slot is declared exactly once under its name. -/
theorem localType_form (hp : (f.parameters.map (·.name)).Nodup)
    (hbare : ∀ y ∈ (f.slots p).entries.map (·.1), bareName y = y) {x : String}
    (hx : x ∈ (f.slots p).entries.map (·.1)) :
    (f.form p exportName).localType x = some (f.slotType x) := by
  have hnd := nodup_slots hp p
  obtain ⟨⟨y, t⟩, hmem, rfl⟩ := List.mem_map.mp hx
  have honly : (f.slots p).entries.filter (fun l => signed l.1 = signed y) = [(y, t)] := by
    refine filter_eq_singleton hnd hmem fun e he => ?_
    rw [decide_eq_true_eq]
    exact signed_inj (hbare e.1 (List.mem_map_of_mem he)) (hbare y hx)
  unfold FunctionForm.localType
  rw [declared_form, honly, slotType_of_mem hp hmem]

end Typed.Function

section Program

variable {p : Program} {options : Options} {typed : Typed.Program} {z : Checker}

/-- In a program that is spelled with words no slot begins with a sign. -/
theorem ProgramRun.bareName_slot (h : ProgramRun p options typed z) (hspelled : p.Spelled)
    {f : Typed.Function} (hf : f ∈ typed.bodies) {x : String} {t : NumType}
    (hx : f.storage.find? x = some t) : bareName x = x := by
  obtain ⟨body, ⟨scope, s, s', hp, hempty, hstorage⟩, -, hnames, -⟩ := h.source f hf
  obtain ⟨readTypes, s₀, s₁, number, ⟨hrun⟩, -, -, rfl⟩ :=
    hp.final (P := fun _ => True) (fun _ _ _ _ _ _ => trivial) trivial
  rw [List.forall_mem_append] at hnames
  have hin := s₀.entered_steps (N := fun x => Text.isWord x = true) scope readTypes f.parameters
    fun q hq => hspelled _ (hnames.1 _ (List.mem_map_of_mem hq))
  have hall := (Advance.steps hin).trans
    (hrun.advance (N := fun x => Text.isWord x = true) fun x hx => hspelled x (hnames.2 x hx))
  have hslots := hall.slotsAll (Q := fun x => bareName x = x) (fun x n hx => bareName_slotName hx n)
    (Checker.bound_fresh hempty) fun slot t hslot => (nomatch hslot)
  exact hslots x t (hstorage ▸ hx)

/-- A local that is named in the code of a function has the declaration that it was checked with. -/
theorem ProgramRun.localType_form (h : ProgramRun p options typed z) (hspelled : p.Spelled)
    {f : Typed.Function} (hf : f ∈ typed.bodies) (exportName : Option String)
    (hknown : ∀ i ∈ f.code typed, ∀ x, i.local? = some x → (f.storage.find? x).isSome = true)
    {i : Instr} (hi : i ∈ f.code typed) {x : String} {t : NumType} (hx : i.local? = some x)
    (ht : f.storage.find? x = some t) : (f.form typed exportName).localType x = some t := by
  obtain ⟨body, hsource⟩ := h.source f hf
  have hafter := f.after_slots typed
  rw [← h.slotType_eq hspelled hf ht]
  refine Typed.Function.localType_form hsource.parameters (fun y hy => ?_) (hafter.named i hi x hx)
  obtain ⟨new, he, hnew⟩ := hafter.entries
  rw [he, List.map_append, List.mem_append] at hy
  obtain hy | hy := hy
  · have hparam : y ∈ f.parameters.map (·.name) := by simpa [Slots.ofParameters] using hy
    exact bareName_of_isWord (hspelled y (hsource.names y (List.mem_append_left _ hparam)))
  · obtain ⟨e, he, rfl⟩ := List.mem_map.mp hy
    obtain ⟨-, j, hj, hxj⟩ := hnew e he
    obtain ⟨u, hu⟩ := Option.isSome_iff_exists.mp (hknown j hj e.1 hxj)
    exact h.bareName_slot hspelled hf hu

end Program

end Numlet
