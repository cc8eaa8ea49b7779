import Mathlib.Data.List.Nodup
import Numlet.Proofs.Check.Bindings
import Numlet.Proofs.Tree.Outline

/-!
Checking keeps to lexical scoping. Along a run the scope binds a name exactly if scoping does, to the
slot of the declaration that it means, and no two declarations have the same slot. Slots are numbered by
name while bindings come and go with the scopes, so the invariant ties both to the list of all
declarations so far. What is declared with a type keeps that type, in every scope and in storage.
-/
namespace Numlet
open Checking

/-- A name that a slot can be told from. -/
abbrev Dotless (name : String) : Prop := '.' ∉ name.toList

/-- The slot of a declaration: its name, with a number if that name has been declared before. -/
def slotAt (sites : List Site) (k : Nat) : String :=
  match sites[k]? with
  | some site => slotName site.name ((sites.take k).countP (·.name == site.name))
  | none => ""

theorem takeWhile_dot {l : List Char} (h : '.' ∉ l) (r : List Char) :
    (l ++ '.' :: r).takeWhile (· != '.') = l := by
  rw [List.takeWhile_append_of_pos, List.takeWhile_cons]
  · simp
  · intro c hc
    rw [bne_iff_ne]
    rintro rfl
    exact h hc

theorem toList_slotName {name : String} {i : Nat} (hi : i ≠ 0) :
    (slotName name i).toList = name.toList ++ '.' :: (toString i).toList := by
  unfold slotName
  rw [if_neg hi, String.toList_append, String.toList_append, List.append_assoc]
  rfl

theorem toList_toString_inj {i j : Nat} (h : (toString i).toList = (toString j).toList) : i = j := by
  have hdigits : Nat.toDigits 10 i = Nat.toDigits 10 j := by
    simpa only [Nat.toString_eq_repr, Nat.toList_repr] using h
  have hvalue := congrArg (Nat.ofDigitChars 10 · 0) hdigits
  simpa using hvalue

/-- Names without a dot and their numbers can be told from the slot. -/
theorem slotName_inj {a b : String} {i j : Nat} (ha : Dotless a) (hb : Dotless b)
    (h : slotName a i = slotName b j) : a = b ∧ i = j := by
  by_cases hi : i = 0
  · by_cases hj : j = 0
    · simp only [slotName, hi, hj, if_true] at h
      exact ⟨h, hi.trans hj.symm⟩
    · rw [show slotName a i = a by rw [slotName, if_pos hi]] at h
      exact absurd h.symm (slotName_ne ha b (Nat.pos_of_ne_zero hj))
  · by_cases hj : j = 0
    · rw [show slotName b j = b by rw [slotName, if_pos hj]] at h
      exact absurd h (slotName_ne hb a (Nat.pos_of_ne_zero hi))
    · have hlist := congrArg String.toList h
      rw [toList_slotName hi, toList_slotName hj] at hlist
      have hname := congrArg (List.takeWhile (· != '.')) hlist
      rw [takeWhile_dot ha, takeWhile_dot hb] at hname
      rw [hname, List.append_cancel_left_eq, List.cons.injEq] at hlist
      exact ⟨String.toList_inj.mp hname, toList_toString_inj hlist.2⟩

section Slots

variable {sites later : List Site} {k l : Nat}

theorem slotAt_eq {site : Site} (h : sites[k]? = some site) :
    slotAt sites k = slotName site.name ((sites.take k).countP (·.name == site.name)) := by
  unfold slotAt
  rw [h]

theorem lt_length_of_getElem? {site : Site} (h : sites[k]? = some site) : k < sites.length :=
  (List.getElem?_eq_some_iff.mp h).1

/-- Later declarations leave a slot alone. -/
theorem slotAt_of_isPrefix (h : sites <+: later) (hk : k < sites.length) :
    slotAt later k = slotAt sites k := by
  obtain ⟨more, rfl⟩ := h
  unfold slotAt
  rw [List.getElem?_append_left hk, List.take_append_of_le_length (Nat.le_of_lt hk)]

/-- The slot of a declaration that comes next. -/
theorem slotAt_append (site : Site) :
    slotAt (sites ++ [site]) sites.length =
      slotName site.name (sites.countP (·.name == site.name)) := by
  have hsite : (sites ++ [site])[sites.length]? = some site := by simp
  rw [slotAt_eq hsite, List.take_left]

theorem slotAt_ne (hdot : ∀ site ∈ sites, Dotless site.name) (hkl : k < l)
    (hl : l < sites.length) : slotAt sites k ≠ slotAt sites l := by
  have hk : sites[k]? = some sites[k] := List.getElem?_eq_getElem (Nat.lt_trans hkl hl)
  have hl' : sites[l]? = some sites[l] := List.getElem?_eq_getElem hl
  rw [slotAt_eq hk, slotAt_eq hl']
  intro h
  obtain ⟨hname, hcount⟩ :=
    slotName_inj (hdot _ (List.getElem_mem _)) (hdot _ (List.getElem_mem _)) h
  -- The earlier declaration is one of those that the later one counts.
  have hmore : (sites.take (k + 1)).countP (·.name == sites[k].name) ≤
      (sites.take l).countP (·.name == sites[k].name) :=
    (List.take_sublist_take_left hkl).countP_le
  rw [List.take_succ_eq_append_getElem (Nat.lt_trans hkl hl), List.countP_append,
    List.countP_singleton, if_pos (beq_self_eq_true _)] at hmore
  rw [← hname] at hcount
  omega

/-- Distinct declarations have distinct slots. -/
theorem slotAt_inj (hdot : ∀ site ∈ sites, Dotless site.name) (hk : k < sites.length)
    (hl : l < sites.length) (h : slotAt sites k = slotAt sites l) : k = l := by
  obtain hlt | heq | hgt := Nat.lt_trichotomy k l
  · exact absurd h (slotAt_ne hdot hlt hl)
  · exact heq
  · exact absurd h.symm (slotAt_ne hdot hgt hk)

/-- The declaration that a slot tells. -/
def siteOf (sites : List Site) (slot : String) : Nat :=
  ((List.range sites.length).map (slotAt sites)).idxOf slot

theorem siteOf_slotAt (hdot : ∀ site ∈ sites, Dotless site.name) (hk : k < sites.length) :
    siteOf sites (slotAt sites k) = k := by
  have hnd : ((List.range sites.length).map (slotAt sites)).Nodup := by
    refine List.Nodup.map_on (fun i hi j hj heq => ?_) List.nodup_range
    exact slotAt_inj hdot (List.mem_range.mp hi) (List.mem_range.mp hj) heq
  have hindex := hnd.idxOf_getElem k (by simpa using hk)
  rwa [List.getElem_map, List.getElem_range] at hindex

end Slots

/-- The local that a scope binds is that of declaration `k`, and has the type declared there. -/
structure Variable.IsSite (v : Variable) (sites : List Site) (k : Nat) : Prop where
  slot : v.slot = slotAt sites k
  site : ∃ site, sites[k]? = some site ∧
    ∀ type, site.declared = some type → v.fixed = true ∧ v.type = type

theorem Variable.IsSite.lt {v : Variable} {sites : List Site} {k : Nat} (h : v.IsSite sites k) :
    k < sites.length := by
  obtain ⟨site, hs, -⟩ := h.site
  exact lt_length_of_getElem? hs

theorem Variable.IsSite.later {v : Variable} {sites later : List Site} {k : Nat}
    (h : v.IsSite sites k) (hp : sites <+: later) : v.IsSite later k where
  slot := h.slot.trans (slotAt_of_isPrefix hp h.lt).symm
  site := by
    obtain ⟨site, hs, hd⟩ := h.site
    obtain ⟨more, rfl⟩ := hp
    exact ⟨site, (List.getElem?_append_left h.lt).trans hs, hd⟩

/-- An assignment to a local that is declared with a type leaves that type. -/
theorem Variable.IsSite.assigned {v : Variable} {sites : List Site} {k : Nat} (h : v.IsSite sites k)
    {x type : NumType} (ht : NumType.assign? v.type x v.fixed = some type) :
    ({ v with type := type } : Variable).IsSite sites k where
  slot := h.slot
  site := by
    obtain ⟨site, hs, hd⟩ := h.site
    refine ⟨site, hs, fun t hdeclared => ?_⟩
    obtain ⟨hfixed, htype⟩ := hd t hdeclared
    rw [NumType.assign?_eq_some_iff] at ht
    exact ⟨hfixed, by rw [ht.1, NumType.join_eq_left (ht.2 hfixed), htype]⟩

/-- A checker and lexical scoping at the same place of a body. -/
structure Checker.Named (s : Checker) (n : Naming) : Prop where
  dotless : ∀ site ∈ n.sites, Dotless site.name
  counts : ∀ name, (s.declarations.find? name).getD 0 = n.sites.countP (·.name == name)
  bound : ∀ name, Option.Rel (fun v k => v.IsSite n.sites k) (s.scope.find? name) (n.bound.find? name)
  stored : ∀ slot, (s.storage.find? slot).isSome = true ↔
    ∃ k, k < n.sites.length ∧ slot = slotAt n.sites k
  declared : ∀ k site type, n.sites[k]? = some site → site.declared = some type →
    s.storage.find? (slotAt n.sites k) = some type

namespace Checker.Named

variable {s s' : Checker} {n n' : Naming} {name : String} {v : Variable}

theorem find?_of_some (h : s.Named n) (hv : s.scope.find? name = some v) :
    ∃ k, n.bound.find? name = some k ∧ v.IsSite n.sites k := by
  have hrel := h.bound name
  rw [hv] at hrel
  cases hk : n.bound.find? name with
  | none =>
    rw [hk] at hrel
    cases hrel
  | some k =>
    rw [hk] at hrel
    cases hrel with
    | some h => exact ⟨k, rfl, h⟩

theorem find?_of_none (h : s.Named n) (hv : s.scope.find? name = none) :
    n.bound.find? name = none := by
  have hrel := h.bound name
  rw [hv] at hrel
  cases hk : n.bound.find? name with
  | none => rfl
  | some k =>
    rw [hk] at hrel
    cases hrel

/-- A new declaration gets the slot that comes next. -/
theorem nextSlot_eq (h : s.Named n) (name : String) (declared : Option NumType) :
    s.nextSlot name = slotAt (n.declare name declared).sites n.sites.length := by
  unfold Checker.nextSlot
  rw [Naming.declare, slotAt_append, h.counts]

theorem declare_isPrefix (n : Naming) (name : String) (declared : Option NumType) :
    n.sites <+: (n.declare name declared).sites := List.prefix_append _ _

/-- What is bound has the same meaning among more declarations. -/
theorem later (h : s.Named n) {later : List Site} (hp : n.sites <+: later) (name : String) :
    Option.Rel (fun v k => v.IsSite later k) (s.scope.find? name) (n.bound.find? name) := by
  cases hv : s.scope.find? name with
  | none =>
    rw [h.find?_of_none hv]
    exact .none
  | some v =>
    obtain ⟨k, hk, hsite⟩ := h.find?_of_some hv
    rw [hk]
    exact .some (hsite.later hp)

/-- The slot that comes next has no storage yet. -/
theorem storage_nextSlot (h : s.Named n) (hdot : Dotless name) :
    s.storage.find? (s.nextSlot name) = none := by
  cases hs : s.storage.find? (s.nextSlot name) with
  | none => rfl
  | some type =>
    obtain ⟨k, hk, heq⟩ := (h.stored _).mp (Option.isSome_of_eq_some hs)
    rw [h.nextSlot_eq name none, ← slotAt_of_isPrefix (declare_isPrefix n name none) hk] at heq
    refine absurd heq.symm (slotAt_ne ?_ hk (by simp [Naming.declare]))
    exact List.forall_mem_append.mpr ⟨h.dotless, by simpa using hdot⟩

theorem declared_step (h : s.Named n) (hdot : Dotless name) {type : NumType} {fixed : Bool}
    {declared : Option NumType} (hd : ∀ t, declared = some t → fixed = true ∧ type = t) :
    (s.declared name type fixed).Named (n.declare name declared) := by
  have hearlier := declare_isPrefix n name declared
  have hnext := h.nextSlot_eq name declared
  have hdotless : ∀ site ∈ (n.declare name declared).sites, Dotless site.name :=
    List.forall_mem_append.mpr ⟨h.dotless, by simpa using hdot⟩
  have hnew : (n.declare name declared).sites[n.sites.length]? = some ⟨name, declared⟩ := by
    simp [Naming.declare]
  refine ⟨hdotless, fun other => ?_, fun other => ?_, fun slot => ?_, fun k site t hk ht => ?_⟩
  · change ((s.declarations.insert name _).find? other).getD 0 =
      (n.sites ++ [(⟨name, declared⟩ : Site)]).countP (·.name == other)
    rw [Table.find?_insert, List.countP_append, List.countP_singleton]
    by_cases ho : other = name
    · rw [if_pos ho, ho, if_pos (beq_self_eq_true _), h.counts]
      rfl
    · rw [if_neg ho, if_neg (by simpa using Ne.symm ho), h.counts]
      rfl
  · change Option.Rel _ ((s.scope.declare name _ type fixed).find? other)
      ((n.bound.insert name n.sites.length).find? other)
    rw [Scope.find?_declare, Table.find?_insert]
    split
    · exact .some ⟨hnext, _, hnew, hd⟩
    · exact h.later hearlier other
  · unfold Checker.declared
    rw [storage_recorded]
    split
    · next heq => exact ⟨fun _ => ⟨_, lt_length_of_getElem? hnew, heq.trans hnext⟩, fun _ => rfl⟩
    · next hne =>
      refine (h.stored slot).trans ⟨?_, ?_⟩
      · rintro ⟨k, hk, heq⟩
        exact ⟨k, Nat.lt_of_lt_of_le hk hearlier.length_le,
          heq.trans (slotAt_of_isPrefix hearlier hk).symm⟩
      · rintro ⟨k, hk, heq⟩
        have hold : k < n.sites.length := by
          refine Nat.lt_of_le_of_ne (Nat.le_of_lt_succ (by simpa [Naming.declare] using hk)) ?_
          rintro rfl
          exact hne (heq.trans hnext.symm)
        exact ⟨k, hold, heq.trans (slotAt_of_isPrefix hearlier hold)⟩
  · have hlt := lt_length_of_getElem? hk
    unfold Checker.declared
    rw [storage_recorded, hnext]
    by_cases hlast : k = n.sites.length
    · -- The new slot holds the type that it is declared with.
      subst hlast
      rw [hnew] at hk
      cases hk
      rw [if_pos rfl, ← hnext]
      change some (NumType.joinKnown (s.storage.find? (s.nextSlot name)) (some type)) = some t
      rw [h.storage_nextSlot hdot, NumType.joinKnown_none, (hd t ht).2]
    · have hold : k < n.sites.length := by
        simp only [Naming.declare, List.length_append, List.length_singleton] at hlt
        omega
      rw [if_neg (slotAt_ne hdotless hold (lt_length_of_getElem? hnew)),
        slotAt_of_isPrefix hearlier hold]
      exact h.declared k site t ((List.getElem?_append_left hold).symm.trans hk) ht

theorem assigned_step (h : s.Named n) (hv : s.scope.find? name = some v) {x type : NumType}
    (ht : NumType.assign? v.type x v.fixed = some type) :
    (s.assigned name v.slot type).Named n := by
  obtain ⟨k, hk, hsite⟩ := h.find?_of_some hv
  refine ⟨h.dotless, h.counts, fun other => ?_, fun slot => ?_, fun l site t hl hd => ?_⟩
  · change Option.Rel _ ((s.scope.retype name type).find? other) (n.bound.find? other)
    rw [Scope.find?_retype hv]
    split
    · next ho =>
      rw [ho, hk]
      exact .some (hsite.assigned ht)
    · exact h.bound other
  · change (((s.withScope _).recorded v.slot type).storage.find? slot).isSome = true ↔ _
    rw [storage_recorded]
    split
    · next heq => exact ⟨fun _ => ⟨k, hsite.lt, heq.trans hsite.slot⟩, fun _ => rfl⟩
    · exact h.stored slot
  · have hold := h.declared l site t hl hd
    change ((s.withScope _).recorded v.slot type).storage.find? (slotAt n.sites l) = some t
    rw [storage_recorded]
    split
    · next heq =>
      -- The slot tells the declaration, and that has the type of the local.
      rw [hsite.slot] at heq
      have hlk := slotAt_inj h.dotless (lt_length_of_getElem? hl) hsite.lt heq
      subst hlk
      obtain ⟨site', hs', hd'⟩ := (hsite.assigned ht).site
      rw [hl] at hs'
      cases hs'
      obtain ⟨-, htype⟩ := hd' t hd
      change some (NumType.joinKnown (s.storage.find? v.slot) (some type)) = some t
      rw [hsite.slot, hold, NumType.joinKnown_some, show type = t from htype,
        NumType.join_eq_left (Nat.le_refl _)]
    · exact hold

/-- Both leave a copy that they have worked in. -/
theorem leave (h : s.Named n) (h' : s'.Named n') (hp : n.sites <+: n'.sites) :
    (s'.withScope s.scope).Named (n.leave n') :=
  { h' with bound := h.later hp }

theorem loopBody (h : s.Named n) : (s.withScope s.scope.loopBody).Named n := { h with }

/-- What is reported, returned and known to callers does not matter. -/
theorem aside (h : s.Named n) {log : Array Event} {signatures : Table Signature} {bare valued : Bool} :
    Named { s with
      log := log, signatures := signatures, bareReturn := bare, valuedReturn := valued } n :=
  { h with }

end Checker.Named

end Numlet
