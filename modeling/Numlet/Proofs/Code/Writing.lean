import Numlet.Code.Module
import Numlet.Proofs.Code.Coercions
import Numlet.Proofs.Outcome

/-!
The steps of a lowering. A step either refuses a conversion or writes code, and apart from the code it
touches the locals that the code names, counts the loops that it opens and remembers the host's functions
that it calls.
-/
namespace Numlet

/-- The slots after an instruction has been written. -/
def Slots.touch (storage : Table NumType) (s : Slots) : Instr → Slots
  | .getLocal x | .setLocal x => (s.alloc x ((storage.find? x).getD .i32)).2
  | _ => s

/-- The type of a local, whether it has a slot already or not. -/
def Emitter.slotType (s : Emitter) (x : String) : Option NumType :=
  ((s.slots.find? x).map (·.type)).or (s.storage.find? x)

/-- From `s` to `s'` the given code is written, with as many loops opened and these hosts called. -/
structure Emitter.Writes (s : Emitter) (code : List Instr) (opened : Nat) (called : List Host)
    (s' : Emitter) : Prop where
  program : s'.program = s.program
  storage : s'.storage = s.storage
  result : s'.result = s.result
  loops : s'.loops = s.loops
  output : s'.output.toList = s.output.toList ++ code
  nextLabel : s'.nextLabel = s.nextLabel + opened
  slots : s'.slots = code.foldl (Slots.touch s.storage) s.slots
  hosts : ∀ h, h ∈ s'.usedHosts ↔ h ∈ s.usedHosts ∨ h ∈ called

namespace Emitter.Writes

theorem refl (s : Emitter) : s.Writes [] 0 [] s :=
  ⟨rfl, rfl, rfl, rfl, (List.append_nil _).symm, rfl, rfl, fun _ => by simp⟩

theorem trans {s s₁ s₂ : Emitter} {code₁ code₂ : List Instr} {opened₁ opened₂ : Nat}
    {called₁ called₂ : List Host} (h₁ : s.Writes code₁ opened₁ called₁ s₁)
    (h₂ : s₁.Writes code₂ opened₂ called₂ s₂) :
    s.Writes (code₁ ++ code₂) (opened₁ + opened₂) (called₁ ++ called₂) s₂ where
  program := h₂.program.trans h₁.program
  storage := h₂.storage.trans h₁.storage
  result := h₂.result.trans h₁.result
  loops := h₂.loops.trans h₁.loops
  output := by rw [h₂.output, h₁.output, List.append_assoc]
  nextLabel := by rw [h₂.nextLabel, h₁.nextLabel, Nat.add_assoc]
  slots := by rw [h₂.slots, h₁.storage, h₁.slots, List.foldl_append]
  hosts h := by rw [h₂.hosts, h₁.hosts, List.mem_append, or_assoc]

end Emitter.Writes

theorem Slots.findFrom_append (name : String) (i : Nat) (xs ys : List (String × NumType)) :
    Slots.findFrom name i (xs ++ ys) =
      (Slots.findFrom name i xs).or (Slots.findFrom name (i + xs.length) ys) := by
  induction xs generalizing i with
  | nil => simp [findFrom]
  | cons e xs ih =>
    obtain ⟨n, t⟩ := e
    rw [List.cons_append, findFrom, findFrom, ih]
    split
    · rfl
    · rw [List.length_cons, Nat.add_right_comm, Nat.add_assoc]

/-- A slot that is found stays; a name without one gets one of the given type. -/
theorem Slots.find?_alloc (s : Slots) (name other : String) (type : NumType) :
    ∃ slot, (s.alloc name type).2.find? other =
      (s.find? other).or (if other = name then some ⟨slot, type⟩ else none) := by
  unfold alloc
  cases h : s.find? name with
  | some slot =>
    refine ⟨0, ?_⟩
    by_cases ho : other = name
    · subst ho
      simp [h]
    · simp [ho]
  | none =>
    refine ⟨s.entries.length, ?_⟩
    change findFrom other 0 (s.entries ++ [(name, type)]) = _
    rw [findFrom_append, Nat.zero_add, findFrom, findFrom]
    simp only [eq_comm, find?]

theorem Slots.alloc_of_find? {s : Slots} {name : String} {slot : Slot}
    (h : s.find? name = some slot) (type : NumType) : s.alloc name type = (slot, s) := by
  unfold alloc
  rw [h]

/-- Touching locals changes no type. -/
theorem Emitter.slotType_touch {s : Emitter} {x : String} {t : NumType} (h : s.slotType x = some t)
    (i : Instr) : Emitter.slotType { s with slots := s.slots.touch s.storage i } x = some t := by
  have halloc : ∀ y, Emitter.slotType
      { s with slots := (s.slots.alloc y ((s.storage.find? y).getD .i32)).2 } x = some t := by
    intro y
    obtain ⟨slot, hslot⟩ := s.slots.find?_alloc y x ((s.storage.find? y).getD .i32)
    unfold slotType at h ⊢
    rw [hslot]
    cases hf : s.slots.find? x with
    | some found => simpa [hf] using h
    | none =>
      rw [hf] at h
      by_cases hx : x = y
      · subst hx
        simp only [Option.map_none, Option.none_or] at h
        simp [h]
      · simpa [hx] using h
  cases i with
  | getLocal y | setLocal y => exact halloc y
  | const | numeric | eqz | convert | call | block | loop | ifThen | ifValue | orElse | finish | br | brIf
  | ret | drop | unreachable | verbatim => exact h

theorem Emitter.Writes.slotType {s s' : Emitter} {code : List Instr} {opened : Nat}
    {called : List Host} (h : s.Writes code opened called s') {x : String} {t : NumType}
    (hx : s.slotType x = some t) : s'.slotType x = some t := by
  have hall : ∀ code : List Instr, ∀ slots : Slots, Emitter.slotType { s with slots := slots } x = some t →
      Emitter.slotType { s with slots := code.foldl (Slots.touch s.storage) slots } x = some t := by
    intro code
    induction code with
    | nil => exact fun _ h => h
    | cons i code ih => exact fun slots h => ih _ (slotType_touch h i)
  have hend := hall code s.slots hx
  unfold Emitter.slotType at hend ⊢
  rw [h.storage, h.slots]
  exact hend

namespace Lowering

variable {α β : Type}

/-- What a step does from a state: it fails with the refusal, if there is one, and else writes code. -/
def Does (m : Lowering α) (s : Emitter) (refusal : Option Diagnostic) (code : List Instr)
    (opened : Nat) (called : List Host) : Prop :=
  match refusal with
  | none => ∃ a s', m s = .ok a s' ∧ s.Writes code opened called s'
  | some d => ∃ s', m s = .error d s'

theorem Does.of_pure (a : α) (s : Emitter) : Does (pure a : Lowering α) s none [] 0 [] :=
  ⟨a, s, rfl, .refl s⟩

/-- A computation that has written some code already. -/
theorem Does.start {m k : Lowering α} {s s₁ : Emitter} {r : Option Diagnostic}
    {code₁ code₂ : List Instr} {opened₁ opened₂ : Nat} {called₁ called₂ : List Host}
    (hm : m s = k s₁) (hw : s.Writes code₁ opened₁ called₁ s₁)
    (hk : Does k s₁ r code₂ opened₂ called₂) :
    Does m s r (code₁ ++ code₂) (opened₁ + opened₂) (called₁ ++ called₂) := by
  cases r with
  | some d =>
    obtain ⟨s₂, hk⟩ := hk
    exact ⟨s₂, hm.trans hk⟩
  | none =>
    obtain ⟨b, s₂, hk, hw'⟩ := hk
    exact ⟨b, s₂, hm.trans hk, hw.trans hw'⟩

/-- One step after the other. -/
theorem Does.bind {m : Lowering α} {k : α → Lowering β} {s : Emitter} {r₁ r₂ : Option Diagnostic}
    {code₁ code₂ : List Instr} {opened₁ opened₂ : Nat} {called₁ called₂ : List Host}
    (h₁ : Does m s r₁ code₁ opened₁ called₁)
    (h₂ : ∀ a s', s.Writes code₁ opened₁ called₁ s' → Does (k a) s' r₂ code₂ opened₂ called₂) :
    Does (m >>= k) s (r₁.or r₂) (code₁ ++ code₂) (opened₁ + opened₂) (called₁ ++ called₂) := by
  cases r₁ with
  | some d =>
    obtain ⟨s₁, hm⟩ := h₁
    exact ⟨s₁, bind_of_error hm⟩
  | none =>
    obtain ⟨a, s₁, hm, hw⟩ := h₁
    exact Does.start (bind_of_ok hm) hw (h₂ a s₁ hw)

theorem Does.discard {m : Lowering α} {s : Emitter} {refusal : Option Diagnostic} {code : List Instr}
    {opened : Nat} {called : List Host} (h : Does m s refusal code opened called) :
    Does (discard m : Lowering PUnit) s refusal code opened called := by
  cases refusal with
  | none =>
    obtain ⟨a, s', hm, hw⟩ := h
    exact ⟨_, s', map_eq_ok.mpr ⟨a, hm, rfl⟩, hw⟩
  | some d =>
    obtain ⟨s', hm⟩ := h
    refine ⟨s', ?_⟩
    change EStateM.map _ m s = _
    unfold EStateM.map
    rw [hm]

/-- The same code in other words. -/
theorem Does.congr {m : Lowering α} {s : Emitter} {refusal refusal' : Option Diagnostic}
    {code code' : List Instr} {opened opened' : Nat} {called called' : List Host}
    (h : Does m s refusal code opened called) (hr : refusal = refusal') (hc : code = code')
    (ho : opened = opened') (hh : ∀ host, host ∈ called' ↔ host ∈ called) :
    Does m s refusal' code' opened' called' := by
  subst hr hc ho
  cases refusal with
  | none =>
    obtain ⟨a, s', hm, hw⟩ := h
    exact ⟨a, s', hm, { hw with hosts := fun host => by rw [hw.hosts, hh] }⟩
  | some d => exact h

theorem emit_does {s : Emitter} {i : Instr} (h : s.slots.touch s.storage i = s.slots) :
    Does (emit i) s none [i] 0 [] := by
  refine ⟨(), { s with output := s.output.push i }, rfl, rfl, rfl, rfl, rfl, ?_, rfl, h.symm, ?_⟩
  · exact Array.toList_push
  · exact fun host => by simp

theorem coerce_does (s : Emitter) (k : Coercion) :
    Does (coerce k.source k.target k.span) s k.refusal?
      (Node.flatten (coerceNodes k.source k.target)) 0 [] := by
  obtain ⟨source, target, span, written⟩ := k
  have hsame : ∀ t, Does (coerce t t span) s none (Node.flatten (coerceNodes t t)) 0 [] := by
    intro t
    simpa [coerce, Conversion.plan, coerceNodes] using Does.of_pure () s
  have hemit : ∀ c, Does (emit (.convert c)) s none [.convert c] 0 [] := fun c => emit_does rfl
  cases source <;> cases target
  all_goals first
    | exact hsame _
    | exact hemit _
    | exact ⟨s, rfl⟩

/-- Looking for the slot of a local whose type is known. -/
theorem slotFor_run {s : Emitter} {x : String} {t : NumType} (h : s.slotType x = some t)
    (fallback : NumType) :
    ∃ slot log, slotFor x fallback s =
      .ok slot { s with slots := s.slots.touch s.storage (.getLocal x), log := log } ∧
        slot.type = t := by
  unfold slotFor
  rw [bind_of_ok (get_eq_ok.mpr ⟨rfl, rfl⟩)]
  unfold changeSlots
  rw [bind_of_ok (get_eq_ok.mpr ⟨rfl, rfl⟩)]
  unfold Emitter.slotType at h
  cases hf : s.slots.find? x with
  | some slot =>
    refine ⟨slot, s.log, ?_, ?_⟩
    · simp only [Slots.alloc_of_find? hf, Slots.touch, Option.isNone_some]
      rfl
    · rw [hf] at h
      exact Option.some.inj h
  | none =>
    rw [hf] at h
    change s.storage.find? x = some t at h
    have halloc : s.slots.alloc x t =
        (⟨s.slots.entries.length, t⟩, { s.slots with entries := s.slots.entries ++ [(x, t)] }) := by
      unfold Slots.alloc
      rw [hf]
    refine ⟨⟨s.slots.entries.length, t⟩, s.log.push (.slotAllocated s.slots.entries.length x t), ?_, rfl⟩
    simp only [h, Option.getD_some, Option.isNone_none, Slots.touch, halloc]
    rfl

end Lowering

end Numlet
