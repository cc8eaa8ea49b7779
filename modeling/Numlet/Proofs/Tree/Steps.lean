import Numlet.Proofs.Blame
import Numlet.Tree.ReadStmt

/-!
The steps that all readings are made of, under a condition on cursors that moving on keeps. What a reading
gives and how it fails is then a matter of the tokens that it meets.
-/
namespace Numlet.Reading

variable {α β : Type} {P : α → Prop} {Q : β → Prop} {R : Cursor → Prop} {E : Diagnostic → Prop}
  {T : Token → Prop}

theorem kind_blames : Blames R E (fun _ => True) kind := .bind .get fun _ _ => .pure trivial

theorem lastEnd_blames : Blames R E (fun _ => True) lastEnd := .bind .get fun _ _ => .pure trivial

theorem spanFrom_blames (t : Token) : Blames R E (fun span => span.start = t.span.start) (spanFrom t) :=
  lastEnd_blames.bind fun _ _ => .pure rfl

theorem some_blames {m : Reading α} (h : Blames R E P m) :
    Blames R E (fun a => ∀ x ∈ a, P x) (some <$> m) := by
  refine h.map fun a ha x hx => ?_
  cases hx
  exact ha

/-- A reading that chooses by the current kind. -/
theorem atKind_blames {k : Kind} {m n : Reading α}
    (hm : ∀ c, R c → c.kind = k → Ends E (fun a c' => R c' ∧ P a) (m c)) (hn : Blames R E P n) :
    Blames R E P fun c => if c.kind = k then m c else n c := by
  intro c hc
  dsimp only
  split
  · next hk => exact hm c hc hk
  · exact hn c hc

theorem unlessAt_blames (k : Kind) {m : Reading α} (h : Blames R E P m) :
    Blames R E (fun a => ∀ x ∈ a, P x) (unlessAt k m) := by
  refine atKind_blames (m := fun c => .ok none c) (fun c hc _ => ⟨hc, ?_⟩) (some_blames h)
  exact fun _ hx => nomatch hx

/-- Moving on keeps a condition on cursors. Under the condition the current token is as `T` says, and a
refusal is as `E` says. -/
structure Keeps (R : Cursor → Prop) (E : Diagnostic → Prop) (T : Token → Prop) : Prop where
  advance : ∀ c, R c → R c.advance
  current : ∀ c, R c → T c.current
  refusal : ∀ c, R c → E c.refusal
  complaint : ∀ c message, R c → E (c.complaint message)
  unknownType : ∀ t, T t → E ⟨.unknownType t.value, t.span.start⟩

namespace Keeps

variable (h : Keeps R E T)

include h

theorem take : Blames R E T take := fun c hc => ⟨h.advance c hc, h.current c hc⟩

theorem refuse : Blames R E P refuse := fun c hc => h.refusal c hc

theorem complain (message : String) : Blames R E P (complain message) :=
  fun c hc => h.complaint c message hc

theorem expect (k : Kind) : Blames R E (fun t => t.kind = k ∧ T t) (expect k) :=
  atKind_blames (fun c hc hk => ⟨h.advance c hc, hk, h.current c hc⟩) h.refuse

theorem expectOr (k : Kind) (message : String) :
    Blames R E (fun t => t.kind = k ∧ T t) (expectOr k message) :=
  atKind_blames (fun c hc hk => ⟨h.advance c hc, hk, h.current c hc⟩) (h.complain message)

theorem passed (k : Kind) : Blames R E (fun _ => True) (passed k) :=
  atKind_blames (m := fun c => .ok true c.advance) (n := fun c => .ok false c)
    (fun c hc _ => ⟨h.advance c hc, trivial⟩) fun _ hc => ⟨hc, trivial⟩

theorem many (stop : Kind) {item : Reading α} (hitem : Blames R E P item) :
    Blames R E (fun as => ∀ a ∈ as, P a) (many stop item) := by
  intro c hc
  fun_induction Reading.many stop item c with
  | case1 c hk => exact ⟨hc, fun _ ha => nomatch ha⟩
  | case2 c hk d c' hrun =>
    have hfirst := hitem c hc
    rwa [hrun] at hfirst
  | case3 c hk a c' hrun hlt d c'' hmany ih =>
    have hfirst := hitem c hc
    rw [hrun] at hfirst
    have hrest := ih hfirst.1
    rwa [hmany] at hrest
  | case4 c hk a c' hrun hlt as c'' hmany ih =>
    have hfirst := hitem c hc
    rw [hrun] at hfirst
    have hrest := ih hfirst.1
    rw [hmany] at hrest
    exact ⟨hrest.1, List.forall_mem_cons.mpr ⟨hfirst.2, hrest.2⟩⟩
  | case5 c hk a c' hrun hle =>
    have hfirst := hitem c hc
    rw [hrun] at hfirst
    exact h.refuse c' hfirst.1

theorem commaList {item : Reading α} (message : String) (hitem : Blames R E P item) :
    Blames R E (fun as => ∀ a ∈ as, P a) (commaList item message) := by
  refine h.many _ (hitem.bind fun a ha => (h.passed _).bind fun comma _ => ?_)
  cases comma with
  | true => exact .pure ha
  | false => exact kind_blames.bind fun k _ => .ite (fun _ => h.complain message) fun _ => .pure ha

theorem numType : Blames R E (fun _ => True) numType := by
  refine (h.expectOr _ _).bind fun word hword => ?_
  cases NumType.ofName? word.value with
  | none => exact .throw (h.unknownType word hword.2)
  | some type => exact .pure trivial

theorem typeAfter (mark : Kind) : Blames R E (fun _ => True) (typeAfter mark) :=
  (h.passed mark).bind fun _ _ =>
    .ite (fun _ => h.numType.bind fun _ _ => .pure trivial) fun _ => .pure trivial

/-- A part that is read if the mark before it is there. -/
theorem afterMark (mark : Kind) {m : Reading α} {f : Option α → Reading β} (hm : Blames R E P m)
    (hf : ∀ a, (∀ x ∈ a, P x) → Blames R E Q (f a)) :
    Blames R E Q (do
      let value ← if ← Reading.passed mark then some <$> m else pure none
      f value) := by
  refine (h.passed mark).bind fun _ _ => .ite (fun _ => (some_blames hm).bind hf) fun _ => ?_
  exact (Blames.pure fun _ hx => nomatch hx).bind hf

/-- A statement is read from statements behind the cursor that it starts from. -/
theorem stmt (g : Grammar) {S : Stmt → Prop}
    (hstep : ∀ inner, Blames R E S inner → Blames R E S (stmtStep g inner)) :
    Blames R E S (stmt g) := by
  intro c hc
  generalize hn : c.remaining = n
  induction n using Nat.strongRecOn generalizing c with
  | ind n ih =>
    rw [Reading.stmt]
    refine hstep _ ?_ c hc
    intro c' hc'
    dsimp only
    split
    · next hlt => exact ih _ (hn ▸ hlt) c' hc' rfl
    · exact h.refuse c' hc'

end Keeps

end Numlet.Reading
