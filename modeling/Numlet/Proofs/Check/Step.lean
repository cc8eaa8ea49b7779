import Numlet.Check.Program
import Numlet.Proofs.Outcome
import Numlet.Proofs.Widening

/-!
The basic steps of a checker as functions on its state, and what a step that succeeds has done.
-/
namespace Numlet
namespace Checker

def reported (s : Checker) (event : Event) : Checker := { s with log := s.log.push event }

def withScope (s : Checker) (scope : Scope) : Checker := { s with scope := scope }

/-- After a value of the given type has been stored into a slot. -/
def recorded (s : Checker) (slot : String) (type : NumType) : Checker :=
  let widened := NumType.joinKnown (s.storage.find? slot) (some type)
  { s with
    storage := s.storage.insert slot widened
    log := if s.storage.find? slot ≠ some widened
      then s.log.push (.storageChanged slot widened) else s.log }

/-- The slot that the next declaration of a name gets. -/
def nextSlot (s : Checker) (name : String) : String :=
  Checking.slotName name ((s.declarations.find? name).getD 0)

/-- After a name has been declared. -/
def declared (s : Checker) (name : String) (type : NumType) (fixed : Bool) : Checker :=
  { s with
    declarations := s.declarations.insert name ((s.declarations.find? name).getD 0 + 1)
    scope := s.scope.declare name (s.nextSlot name) type fixed }.recorded (s.nextSlot name) type

/-- After a bound name has been assigned. -/
def assigned (s : Checker) (name slot : String) (type : NumType) : Checker :=
  (s.withScope (s.scope.retype name type)).recorded slot type

def readType (s : Checker) (slot : String) (type : NumType) : NumType :=
  (s.readTypes.find? slot).getD type

/-- After a conversion whose written source type is compared with the real one. -/
def noted (s : Checker) (written : Option NumType) (type : NumType) : Checker :=
  match written with
  | none => s
  | some t => if t ≠ type then s.reported (.conversionDiffers t type) else s

theorem noted_eq (s : Checker) (written : Option NumType) (type : NumType) :
    ∃ log, s.noted written type = { s with log := log } := by
  unfold noted
  split
  · exact ⟨s.log, rfl⟩
  · split
    · exact ⟨_, rfl⟩
    · exact ⟨s.log, rfl⟩

def withSignature (s : Checker) (name : String) (signature : Signature) : Checker :=
  { s with signatures := s.signatures.insert name signature }

/-- After a call has pinned the result of a function. -/
def pinned (s : Checker) (callee : String) (signature : Signature) (type : NumType) : Checker :=
  (s.reported (.resultPinned callee type)).withSignature callee
    { signature with result := some type, resultFixed := true }

end Checker

namespace Checking
open Numlet.Checker

theorem record_run (s : Checker) (slot : String) (type : NumType) :
    record slot type s = .ok () (s.recorded slot type) := by
  unfold record recorded
  rw [bind_of_ok (get_eq_ok.mpr ⟨rfl, rfl⟩)]
  by_cases h : s.storage.find? slot = some (NumType.joinKnown (s.storage.find? slot) (some type))
  · simp only [← h, ne_eq, not_true_eq_false, if_false]
    rfl
  · simp only [h, ne_eq, not_false_eq_true, if_true]
    rfl

theorem declareLocal_run (s : Checker) (name : String) (type : NumType) (fixed : Bool) :
    declareLocal name type fixed s = .ok (s.nextSlot name) (s.declared name type fixed) := by
  unfold declareLocal
  rw [bind_of_ok (get_eq_ok.mpr ⟨rfl, rfl⟩)]
  exact bind_of_ok (record_run _ _ _)

theorem variableOf_eq_ok {name : String} {span : Span} {s s' : Checker} {v : Variable}
    (h : variableOf name span s = .ok v s') : s.scope.find? name = some v ∧ s' = s := by
  obtain ⟨_, _, hlookup, h⟩ := bind_eq_ok.mp h
  cases hlookup
  cases hv : s.scope.find? name with
  | none =>
    rw [hv] at h
    cases h
  | some w =>
    rw [hv] at h
    cases h
    exact ⟨rfl, rfl⟩

theorem signatureOf_eq_ok {name : String} {span : Span} {s s' : Checker} {signature : Signature}
    (h : signatureOf name span s = .ok signature s') :
    s.signatures.find? name = some signature ∧ s' = s := by
  obtain ⟨_, _, hget, h⟩ := bind_eq_ok.mp h
  cases hget
  cases hv : s.signatures.find? name with
  | none =>
    rw [hv] at h
    cases h
  | some w =>
    rw [hv] at h
    cases h
    exact ⟨rfl, rfl⟩

theorem checkArity_eq_ok {callee : String} {arguments : List Expr} {expected : Nat} {span : Span}
    {s s' : Checker} (h : checkArity callee arguments expected span s = .ok () s') :
    arguments.length = expected ∧ s' = s := by
  unfold checkArity at h
  by_cases hlt : arguments.length < expected
  · rw [if_pos hlt] at h
    cases h
  · rw [if_neg hlt] at h
    cases hd : arguments.drop expected with
    | nil =>
      rw [hd] at h
      cases h
      rw [List.drop_eq_nil_iff] at hd
      exact ⟨by omega, rfl⟩
    | cons extra rest =>
      rw [hd] at h
      cases h

/-- The value of a call has the result type of the callee, which is pinned if it was still open. -/
theorem callResult_eq_ok {callee : String} {span : Span} {s s' : Checker} {type : NumType}
    (h : callResult callee span s = .ok type s') :
    ∃ signature, s.signatures.find? callee = some signature ∧
      ((signature.resultFixed || signature.checked) = true ∧ signature.result = some type ∧ s' = s ∨
        (signature.resultFixed || signature.checked) = false ∧
          type = signature.result.getD .i32 ∧ s' = s.pinned callee signature type) := by
  obtain ⟨signature, s₁, hs, hk⟩ := bind_eq_ok.mp h
  obtain ⟨hs, rfl⟩ := signatureOf_eq_ok hs
  refine ⟨signature, hs, ?_⟩
  cases hc : signature.resultFixed || signature.checked with
  | true =>
    rw [if_pos hc] at hk
    cases hr : signature.result with
    | none =>
      rw [hr] at hk
      cases hk
    | some t =>
      rw [hr] at hk
      cases hk
      exact .inl ⟨rfl, rfl, rfl⟩
  | false =>
    rw [if_neg (by simp [hc])] at hk
    cases hk
    exact .inr ⟨rfl, rfl, rfl⟩

end Checking
end Numlet
