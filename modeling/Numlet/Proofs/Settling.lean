import Numlet.Proofs.Check.Body
import Numlet.Proofs.Check.Repeated

/-!
Storage settles. Every pass over a body has the slots of the pass before, at types no narrower, so each
pass but the first and the last widens a slot. There are only so many slots and types, hence the passes
come to an end, and they do so within the number of passes that the checker allows itself.
-/
namespace Numlet
open Checking

section Passes

variable {N : String → Prop} {scope : Scope} {parameters : List Typed.Parameter} {body : List Stmt}
  {readTypes : Table NumType} {s s' s₁ s₂ z : Checker} {typed typed' : List Typed.Stmt}

theorem Step.nodup_slots (h : Step N s s') (hs : s.storage.slots.Nodup) : s'.storage.slots.Nodup := by
  cases h with
  | report | pin => exact hs
  | assign | declare => exact Table.nodup_slots_insert hs

theorem Steps.nodup_slots (h : Steps N s s') (hs : s.storage.slots.Nodup) :
    s'.storage.slots.Nodup := by
  induction h with
  | refl => exact hs
  | tail _ step ih => exact step.nodup_slots ih

theorem Advance.nodup_slots (h : Advance N s s') (hs : s.storage.slots.Nodup) :
    s'.storage.slots.Nodup := by
  induction h with
  | steps h => exact h.nodup_slots hs
  | trans _ _ ih₁ ih₂ => exact ih₂ (ih₁ hs)
  | bare | valued => exact hs
  | infer _ _ _ h _ => exact h.nodup_slots hs
  | inner _ _ _ ih => exact ih hs

theorem PassRun.nodup_slots (h : PassRun scope parameters body readTypes s typed s') :
    s'.storage.slots.Nodup := by
  have hfresh : (s.fresh scope readTypes).storage.slots.Nodup := List.Pairwise.nil
  exact h.advance.nodup_slots hfresh

/-- Before the parameters are declared nothing is bound or stored in either run. -/
theorem Checker.Retraced.fresh (hempty : scope.bindings = .empty)
    (hread : readTypes.Below z.storage) :
    z.Retraced (s.fresh scope readTypes) (z.fresh scope z.storage) where
  reads := hread
  readTypes := rfl
  signatures := .refl _
  scope name := by
    rw [Checker.find?_fresh hempty, Checker.find?_fresh hempty]
    exact .none
  declarations := rfl
  storage := .nil
  bound := Checker.bound_fresh hempty

theorem Checker.Retraced.entered (ps : List Typed.Parameter) (h : z.Retraced s s') :
    z.Retraced (ps.foldl (fun s p => s.declared p.name p.type true) s)
      (ps.foldl (fun s p => s.declared p.name p.type true) s') := by
  induction ps generalizing s s' with
  | nil => exact h
  | cons p ps ih => exact ih (h.declared p.name (Nat.le_refl _) true)

/-- A pass that reads the storage of the pass before has the same slots at types no narrower. -/
theorem PassRun.storage_under (hempty : scope.bindings = .empty)
    (h : PassRun scope parameters body readTypes s typed s₁)
    (hread : readTypes.Below s₁.storage)
    (h' : PassRun scope parameters body s₁.storage s₁ typed' s₂) :
    s₁.storage.Under s₂.storage := by
  cases h with
  | mk h =>
    cases h' with
    | mk h' =>
      have hstart := (Checker.Retraced.fresh (s := s) hempty hread).entered parameters
      exact (StmtsRun.retraced body h h' hstart ⟨.refl _, .refl _⟩).storage

end Passes

/-- `Rounds scope parameters body readTypes s number passes storages result`: from the state `s`, where
reads have `readTypes` and the next pass is the one with that number, so many passes are made. Those
that succeed end with `storages`; the last of all fails or finds its storage settled, which is the
result. -/
inductive Rounds (scope : Scope) (parameters : List Typed.Parameter) (body : List Stmt) :
    Table NumType → Checker → Nat → Nat → List (Table NumType) →
      EStateM.Result Diagnostic Checker (List Typed.Stmt) → Prop
  | settled {readTypes s number typed s₁}
      (h : pass scope readTypes parameters body s = .ok typed s₁)
      (ha : s₁.storage.agrees readTypes = true) :
      Rounds scope parameters body readTypes s number 1 [s₁.storage]
        (.ok typed (s₁.reported (.storageSettled number)))
  | failed {readTypes s number d s₁} (h : pass scope readTypes parameters body s = .error d s₁) :
      Rounds scope parameters body readTypes s number 1 [] (.error d s₁)
  | again {readTypes s number typed s₁ passes storages result}
      (h : pass scope readTypes parameters body s = .ok typed s₁)
      (ha : s₁.storage.agrees readTypes = false)
      (hr : Rounds scope parameters body s₁.storage s₁ (number + 1) passes storages result) :
      Rounds scope parameters body readTypes s number (passes + 1) (s₁.storage :: storages) result

section Rounds

variable {scope : Scope} {parameters : List Typed.Parameter} {body : List Stmt}
  {readTypes : Table NumType} {s s₁ : Checker} {typed : List Typed.Stmt} {number passes : Nat}
  {storages : List (Table NumType)} {result : EStateM.Result Diagnostic Checker (List Typed.Stmt)}

/-- With fuel for all rounds, settling ends as they do. -/
theorem Rounds.settle_eq
    (h : Rounds scope parameters body readTypes s number passes storages result) {fuel : Nat}
    (hf : passes ≤ fuel) : settle scope parameters body fuel number readTypes s = result := by
  induction h generalizing fuel with
  | settled h ha =>
    obtain ⟨fuel, rfl⟩ := Nat.exists_eq_add_of_le' hf
    rw [settle, bind_of_ok h, bind_of_ok (get_eq_ok.mpr ⟨rfl, rfl⟩), if_pos ha]
    rfl
  | failed h =>
    obtain ⟨fuel, rfl⟩ := Nat.exists_eq_add_of_le' hf
    rw [settle, bind_of_error h]
  | @again _ _ _ _ _ passes _ _ h ha _ ih =>
    obtain ⟨fuel, rfl⟩ : ∃ k, fuel = k + 1 := ⟨fuel - 1, by omega⟩
    rw [settle, bind_of_ok h, bind_of_ok (get_eq_ok.mpr ⟨rfl, rfl⟩), if_neg (by simp [ha])]
    exact ih (by omega)

/-- After a pass, as many more passes follow at most as its storage is short of the widest one, and one
more. -/
theorem Rounds.exists_of_pass (hempty : scope.bindings = .empty) (room : Nat)
    (h : PassRun scope parameters body readTypes s typed s₁)
    (hread : readTypes.Below s₁.storage)
    (hroom : 3 * s₁.storage.entries.length ≤ s₁.storage.weight + room) (number : Nat) :
    ∃ passes storages result,
      Rounds scope parameters body s₁.storage s₁ number passes storages result ∧
      passes ≤ room + 1 ∧ (s₁.storage :: storages).IsChain Table.Under := by
  induction room using Nat.strongRecOn generalizing readTypes s typed s₁ number with
  | ind room ih =>
    cases hp : pass scope s₁.storage parameters body s₁ with
    | error d s₂ => exact ⟨1, [], _, .failed hp, Nat.le_add_left _ _, .singleton _⟩
    | ok typed₂ s₂ =>
      have hrun := PassRun.of_pass hp
      have hunder := h.storage_under hempty hread hrun
      cases ha : s₂.storage.agrees s₁.storage with
      | true =>
        exact ⟨1, [s₂.storage], _, .settled hp ha, Nat.le_add_left _ _,
          .cons_cons hunder (.singleton _)⟩
      | false =>
        -- The storage has changed, so it weighs more, and there is less room left.
        have hweight : s₁.storage.weight < s₂.storage.weight := by
          refine Nat.lt_of_not_le fun hle => ?_
          rw [hunder.eq_of_weight_le hle, Table.agrees_self h.nodup_slots] at ha
          cases ha
        have hlength : s₂.storage.entries.length = s₁.storage.entries.length :=
          hunder.length_eq.symm
        have hmost := s₂.storage.weight_le
        obtain ⟨passes, storages, result, hr, hle, hchain⟩ :=
          ih (room - 1) (by omega) hrun hunder.below (by omega) (number + 1)
        exact ⟨passes + 1, s₂.storage :: storages, result, .again hp ha hr, by omega,
          .cons_cons hunder hchain⟩

/-- All storages of a chain have the slots of the first. -/
theorem slots_eq_of_isChain {t : Table NumType} {ts : List (Table NumType)}
    (h : (t :: ts).IsChain Table.Under) : ∀ u ∈ t :: ts, u.slots = t.slots := by
  induction ts generalizing t with
  | nil => simp
  | cons v ts ih =>
    rw [List.isChain_cons_cons] at h
    intro u hu
    obtain rfl | hu := List.mem_cons.mp hu
    · rfl
    · exact (ih h.2 u hu).trans h.1.slots_eq

end Rounds

/-- The passes over a body come to an end, with the first failure or with a storage that has settled,
and that is the outcome of checking the body. The passes that succeed all have the same slots, each of
them at types no narrower than the one before, and there are at most three passes for each slot and two
more. -/
theorem checkBody_settles (function : Option String) (parameters : List Typed.Parameter)
    (body : List Stmt) (s : Checker) :
    ∃ passes storages result slots,
      Rounds { function := function } parameters body .empty s 1 passes storages result ∧
      checkBody { function := function } parameters body s = result ∧
      storages.IsChain Table.Under ∧ (∀ t ∈ storages, t.slots = slots) ∧ slots.Nodup ∧
      (storages = [] → slots = []) ∧ passes ≤ 3 * slots.length + 2 := by
  cases hp : pass { function := function } .empty parameters body s with
  | error d s₁ =>
    have hrounds : Rounds { function := function } parameters body .empty s 1 1 [] (.error d s₁) :=
      .failed hp
    refine ⟨1, [], _, [], hrounds, hrounds.settle_eq (Nat.le_add_left _ _), .nil, ?_⟩
    simp
  | ok typed s₁ =>
    have hrun := PassRun.of_pass hp
    have hbelow : Table.empty.Below s₁.storage := fun _ _ h => nomatch h
    have hsites : s₁.storage.slots.length ≤ parameters.length + sitesOfStmts body := by
      have hfills := hrun.fills.atMost
      rwa [Table.slots, List.length_map, ← Nat.zero_add (_ + _)]
    have hbound : 3 * s₁.storage.slots.length + 2 ≤ passBound parameters body := by
      unfold passBound
      omega
    cases ha : s₁.storage.agrees .empty with
    | true =>
      have hrounds : Rounds { function := function } parameters body .empty s 1 1 [s₁.storage] _ :=
        .settled hp ha
      refine ⟨1, [s₁.storage], _, s₁.storage.slots, hrounds, hrounds.settle_eq (by omega),
        .singleton _, ?_, hrun.nodup_slots, by simp, by omega⟩
      simp
    | false =>
      obtain ⟨passes, storages, result, hr, hle, hchain⟩ := Rounds.exists_of_pass rfl
        (3 * s₁.storage.slots.length) hrun hbelow (by simp [Table.slots]) 2
      have hrounds : Rounds { function := function } parameters body .empty s 1 (passes + 1)
          (s₁.storage :: storages) result := .again hp ha hr
      exact ⟨passes + 1, s₁.storage :: storages, result, s₁.storage.slots, hrounds,
        hrounds.settle_eq (by omega), hchain, slots_eq_of_isChain hchain, hrun.nodup_slots, by simp,
        by omega⟩

end Numlet
