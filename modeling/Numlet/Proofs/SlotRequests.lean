import Numlet.Proofs.Prologue

/-!
The slots of a function under any sequence of requests. A request for a slot puts its name behind the others if
the name has no slot yet, and nothing else happens to the names, so that they stay distinct and every slot stays
as it is. A map from names to slots, beside the names in order and the number of parameters, gives the same
answers as long as the indices fit words of 32 bits.
-/
namespace Numlet

/-- What can be asked of the slots of a function. -/
inductive SlotRequest
  | parameter (name : String) (type : NumType)
  | alloc (name : String) (type : NumType)
  | get (name : String)
deriving DecidableEq

namespace SlotRequest

def name : SlotRequest → String
  | parameter x _ | alloc x _ | get x => x

/-- What a request adds to slots that do not have its name. -/
def entry? : SlotRequest → Option (String × NumType)
  | parameter x t | alloc x t => some (x, t)
  | get _ => none

def parameter? : SlotRequest → Option (String × NumType)
  | parameter x t => some (x, t)
  | alloc _ _ | get _ => none

section Serving

variable {σ : Type} (serve : σ → SlotRequest → Option Slot × σ)

/-- What is left of `s` after it has served some requests, one after the other. -/
def after (s : σ) (rs : List SlotRequest) : σ := rs.foldl (fun s r => (serve s r).2) s

/-- The answers to these requests. -/
def answers (s : σ) : List SlotRequest → List (Option Slot)
  | [] => []
  | r :: rs => (serve s r).1 :: answers (serve s r).2 rs

theorem after_append (s : σ) (rs rs' : List SlotRequest) :
    after serve s (rs ++ rs') = after serve (after serve s rs) rs' :=
  List.foldl_append

end Serving

theorem exists_entry?_iff {rs : List SlotRequest} {x : String} :
    (∃ r ∈ rs, ∃ t, r.entry? = some (x, t)) ↔ ∃ t, .parameter x t ∈ rs ∨ .alloc x t ∈ rs := by
  constructor
  · rintro ⟨r, hr, t, ht⟩
    cases r with
    | parameter y u =>
      cases ht
      exact ⟨t, .inl hr⟩
    | alloc y u =>
      cases ht
      exact ⟨t, .inr hr⟩
    | get y => cases ht
  · rintro ⟨t, hr | hr⟩
    · exact ⟨_, hr, t, rfl⟩
    · exact ⟨_, hr, t, rfl⟩

end SlotRequest

open SlotRequest (after answers parameter?)

namespace Slots

variable {s : Slots} {r : SlotRequest} {rs : List SlotRequest} {x : String} {t : NumType}

/-- The names in the order of their indices. -/
def names (s : Slots) : List String := s.entries.map (·.1)

/-- The answer to a request, and the slots after it. -/
def serve (s : Slots) : SlotRequest → Option Slot × Slots
  | .parameter x t => (some (s.addParameter x t).1, (s.addParameter x t).2)
  | .alloc x t => (some (s.alloc x t).1, (s.alloc x t).2)
  | .get x => (s.find? x, s)

/-- The slots after requests to empty ones. -/
def served (rs : List SlotRequest) : Slots := after serve {} rs

theorem served_append (rs rs' : List SlotRequest) : served (rs ++ rs') = after serve (served rs) rs' :=
  SlotRequest.after_append serve {} rs rs'

theorem find?_eq_none_iff : s.find? x = none ↔ x ∉ s.names := findFrom_eq_none_iff

theorem alloc_of_not_mem (h : x ∉ s.names) (t : NumType) :
    s.alloc x t = (⟨s.entries.length, t⟩, { s with entries := s.entries ++ [(x, t)] }) := by
  unfold alloc
  rw [find?_eq_none_iff.mpr h]

/-- A name is found, or it is put behind the others. -/
theorem alloc_cases (s : Slots) (x : String) (t : NumType) :
    (∃ slot, x ∈ s.names ∧ s.find? x = some slot ∧ s.alloc x t = (slot, s)) ∨
      x ∉ s.names ∧ s.find? x = none ∧
        s.alloc x t = (⟨s.entries.length, t⟩, { s with entries := s.entries ++ [(x, t)] }) := by
  cases hfind : s.find? x with
  | some slot =>
    have hx : x ∈ s.names := by
      apply Decidable.byContradiction
      intro hx
      cases hfind.symm.trans (find?_eq_none_iff.mpr hx)
    exact .inl ⟨slot, hx, rfl, alloc_of_find? hfind t⟩
  | none =>
    have hx := find?_eq_none_iff.mp hfind
    exact .inr ⟨hx, rfl, alloc_of_not_mem hx t⟩

/-- What a request does to the names: a new one is put behind the others, or nothing happens. -/
theorem serve_cases (s : Slots) (r : SlotRequest) :
    ((s.serve r).2.entries = s.entries ∧ ∀ x t, r.entry? = some (x, t) → x ∈ s.names) ∨
      ∃ x t, r.entry? = some (x, t) ∧ x ∉ s.names ∧ (s.serve r).2.entries = s.entries ++ [(x, t)] := by
  cases r with
  | parameter x t | alloc x t =>
    change ((s.alloc x t).2.entries = _ ∧ _) ∨ ∃ y u, _ ∧ _ ∧ (s.alloc x t).2.entries = _
    obtain ⟨slot, hx, -, halloc⟩ | ⟨hx, -, halloc⟩ := s.alloc_cases x t
    · rw [halloc]
      refine .inl ⟨rfl, fun y u hy => ?_⟩
      cases hy
      exact hx
    · rw [halloc]
      exact .inr ⟨x, t, rfl, hx, rfl⟩
  | get x => exact .inl ⟨rfl, fun y u hy => by cases hy⟩

theorem isPrefix_serve (s : Slots) (r : SlotRequest) : s.entries <+: (s.serve r).2.entries := by
  obtain ⟨hentries, -⟩ | ⟨x, t, -, -, hentries⟩ := s.serve_cases r
  · exact hentries ▸ List.prefix_refl _
  · exact hentries ▸ List.prefix_append _ _

theorem isPrefix_after (s : Slots) (rs : List SlotRequest) : s.entries <+: (after serve s rs).entries := by
  induction rs generalizing s with
  | nil => exact List.prefix_refl _
  | cons r rs ih => exact (s.isPrefix_serve r).trans (ih _)

theorem nodup_serve (h : s.names.Nodup) (r : SlotRequest) : (s.serve r).2.names.Nodup := by
  unfold names
  obtain ⟨hentries, -⟩ | ⟨x, t, -, hx, hentries⟩ := s.serve_cases r
  · rwa [hentries]
  · rw [hentries, List.map_append, List.map_singleton, ← List.concat_eq_append]
    exact List.Nodup.concat hx h

theorem nodup_served (rs : List SlotRequest) : (served rs).names.Nodup := by
  have hafter : ∀ s : Slots, s.names.Nodup → (after serve s rs).names.Nodup := by
    induction rs with
    | nil => exact fun s h => h
    | cons r rs ih => exact fun s h => ih _ (nodup_serve h r)
  exact hafter {} List.nodup_nil

theorem mem_names_serve : x ∈ (s.serve r).2.names ↔ x ∈ s.names ∨ ∃ t, r.entry? = some (x, t) := by
  unfold names
  obtain ⟨hentries, hold⟩ | ⟨y, u, hr, -, hentries⟩ := s.serve_cases r
  · rw [hentries]
    refine ⟨.inl, ?_⟩
    rintro (hx | ⟨t, ht⟩)
    · exact hx
    · exact hold x t ht
  · rw [hentries, List.map_append, List.mem_append, List.map_singleton, List.mem_singleton, hr]
    simp [eq_comm]

theorem mem_names_after :
    x ∈ (after serve s rs).names ↔ x ∈ s.names ∨ ∃ r ∈ rs, ∃ t, r.entry? = some (x, t) := by
  induction rs generalizing s with
  | nil => simp [after]
  | cons r rs ih =>
    change x ∈ (after serve (s.serve r).2 rs).names ↔ _
    rw [ih, mem_names_serve, or_assoc, List.exists_mem_cons_iff]

/-- A slot stays when names are put behind its own. -/
theorem find?_of_isPrefix {s' : Slots} (h : s.entries <+: s'.entries) {slot : Slot}
    (hx : s.find? x = some slot) : s'.find? x = some slot := by
  obtain ⟨new, hnew⟩ := h
  unfold find? at hx ⊢
  rw [← hnew, findFrom_append, hx]
  rfl

/-- An answer is the slot that the name has from then on. -/
theorem find?_serve (s : Slots) (r : SlotRequest) : (s.serve r).2.find? r.name = (s.serve r).1 := by
  have halloc : ∀ x t, (s.alloc x t).2.find? x = some (s.alloc x t).1 := by
    intro x t
    obtain ⟨slot, -, hslot, halloc⟩ | ⟨-, hnone, halloc⟩ := s.alloc_cases x t
    · rw [halloc, hslot]
    · rw [halloc]
      unfold find? at hnone ⊢
      rw [findFrom_append, hnone, Nat.zero_add, findFrom, if_pos rfl]
      rfl
  cases r with
  | parameter x t | alloc x t => exact halloc x t
  | get x => rfl

section Places

/-- The index of a name is its place. -/
theorem getElem?_names (h : s.names.Nodup) {k : Nat} :
    s.names[k]? = some x ↔ ∃ t, s.find? x = some ⟨k, t⟩ := by
  simp only [find?_eq_some_iff h]
  rw [names, List.getElem?_map, Option.map_eq_some_iff]
  constructor
  · rintro ⟨⟨y, t⟩, hk, rfl⟩
    exact ⟨t, hk⟩
  · rintro ⟨t, hk⟩
    exact ⟨(x, t), hk, rfl⟩

theorem map_fst_locals (s : Slots) : s.locals.map (·.1) = s.names.drop s.parameterCount := by
  have hlocals := congrArg (List.map Prod.fst) s.map_locals
  rwa [List.map_map, List.map_drop] at hlocals

theorem mem_locals_iff (h : s.names.Nodup) {slot : Slot} :
    (x, slot) ∈ s.locals ↔ s.find? x = some slot ∧ s.parameterCount ≤ slot.index := by
  obtain ⟨k, t⟩ := slot
  rw [find?_eq_some_iff h, locals, List.mem_map]
  constructor
  · rintro ⟨⟨⟨y, u⟩, j⟩, hmem, heq⟩
    cases heq
    obtain ⟨i, hi⟩ := List.mem_iff_getElem?.mp hmem
    rw [List.getElem?_drop, List.getElem?_zipIdx, Nat.zero_add, Option.map_eq_some_iff] at hi
    obtain ⟨e, he, heq⟩ := hi
    cases heq
    exact ⟨he, Nat.le_add_right _ _⟩
  · rintro ⟨hk, hle⟩
    refine ⟨((x, t), k), List.mem_iff_getElem?.mpr ⟨k - s.parameterCount, ?_⟩, rfl⟩
    rw [List.getElem?_drop, List.getElem?_zipIdx, Nat.zero_add, Nat.add_sub_cancel' hle, hk]
    rfl

theorem pairwise_locals (s : Slots) : s.locals.Pairwise fun a b => a.2.index < b.2.index := by
  have hindices : (s.entries.zipIdx.map Prod.snd).Pairwise (· < ·) := by
    rw [List.zipIdx_map_snd]
    exact List.pairwise_lt_range'
  rw [List.pairwise_map] at hindices
  exact List.pairwise_map.mpr (hindices.sublist (List.drop_sublist _ _))

end Places

section Parameters

theorem parameterCount_alloc (s : Slots) (x : String) (t : NumType) :
    (s.alloc x t).2.parameterCount = s.parameterCount := by
  obtain ⟨slot, -, -, halloc⟩ | ⟨-, -, halloc⟩ := s.alloc_cases x t
  · rw [halloc]
  · rw [halloc]

theorem parameterCount_after (h : ∀ x t, .parameter x t ∉ rs) :
    (after serve s rs).parameterCount = s.parameterCount := by
  induction rs generalizing s with
  | nil => rfl
  | cons r rs ih =>
    refine (ih fun x t hmem => h x t (List.mem_cons_of_mem r hmem)).trans ?_
    cases r with
    | parameter x t => exact absurd List.mem_cons_self (h x t)
    | alloc x t => exact s.parameterCount_alloc x t
    | get x => rfl

/-- Parameters with distinct names that come before anything else is allocated are the first entries. -/
theorem after_parameters (done : List (String × NumType)) (h : ∀ x t, .alloc x t ∉ rs)
    (hnd : ((done ++ rs.filterMap parameter?).map (·.1)).Nodup) :
    after serve ⟨done, done.length⟩ rs =
      ⟨done ++ rs.filterMap parameter?, (done ++ rs.filterMap parameter?).length⟩ := by
  induction rs generalizing done with
  | nil =>
    rw [List.filterMap_nil, List.append_nil]
    rfl
  | cons r rs ih =>
    have hrest := fun x t hmem => h x t (List.mem_cons_of_mem r hmem)
    cases r with
    | parameter x t =>
      have hfirst : (SlotRequest.parameter x t :: rs).filterMap parameter? =
          [(x, t)] ++ rs.filterMap parameter? := rfl
      rw [hfirst] at hnd ⊢
      have hx : x ∉ (⟨done, done.length⟩ : Slots).names := by
        intro hmem
        rw [List.map_append, List.nodup_append] at hnd
        exact hnd.2.2 x hmem x List.mem_cons_self rfl
      have hstep : (serve ⟨done, done.length⟩ (.parameter x t)).2 =
          ⟨done ++ [(x, t)], (done ++ [(x, t)]).length⟩ := by
        change (addParameter _ x t).2 = _
        unfold addParameter
        rw [alloc_of_not_mem hx]
      rw [← List.append_assoc] at hnd ⊢
      rw [← ih _ hrest hnd, ← hstep]
      rfl
    | alloc x t => exact absurd List.mem_cons_self (h x t)
    | get x => exact ih done hrest hnd

/-- If all parameters come first, under distinct names, their indices count them and the rest are locals. -/
theorem served_parameters_first {before later : List SlotRequest} (hb : ∀ x t, .alloc x t ∉ before)
    (hl : ∀ x t, .parameter x t ∉ later) (hnd : ((before.filterMap parameter?).map (·.1)).Nodup) :
    (∀ k x t, (before.filterMap parameter?)[k]? = some (x, t) →
        (served (before ++ later)).find? x = some ⟨k, t⟩) ∧
      (served (before ++ later)).names =
        (before.filterMap parameter?).map (·.1) ++ (served (before ++ later)).locals.map (·.1) := by
  have hbefore : served before = ⟨before.filterMap parameter?, (before.filterMap parameter?).length⟩ :=
    after_parameters [] hb hnd
  have hcount : (served (before ++ later)).parameterCount = (before.filterMap parameter?).length := by
    rw [served_append, parameterCount_after hl, hbefore]
  obtain ⟨new, hnew⟩ := (served before).isPrefix_after later
  rw [← served_append, hbefore] at hnew
  constructor
  · intro k x t hk
    have hlt := (List.getElem?_eq_some_iff.mp hk).1
    rw [find?_eq_some_iff (nodup_served _), ← hnew, List.getElem?_append_left hlt, hk]
  · rw [map_fst_locals, hcount, names, ← hnew, List.map_append, List.drop_left' (List.length_map _)]

end Parameters

/-- Slots after the requests `rs`, in which every name that a slot was asked for has the number of its place. -/
structure Numbered (s : Slots) (rs : List SlotRequest) : Prop where
  nodup : s.names.Nodup
  allocated : ∀ x, x ∈ s.names ↔ ∃ t, .parameter x t ∈ rs ∨ .alloc x t ∈ rs
  place : ∀ k x, s.names[k]? = some x ↔ ∃ t, s.find? x = some ⟨k, t⟩
  locals : s.locals.map (·.1) = s.names.drop s.parameterCount
  mem_locals : ∀ x slot, (x, slot) ∈ s.locals ↔ s.find? x = some slot ∧ s.parameterCount ≤ slot.index
  increasing : s.locals.Pairwise fun a b => a.2.index < b.2.index

theorem numbered_served (rs : List SlotRequest) : (served rs).Numbered rs where
  nodup := nodup_served rs
  allocated x := by
    rw [served, mem_names_after, SlotRequest.exists_entry?_iff]
    exact or_iff_right List.not_mem_nil
  place k x := getElem?_names (nodup_served rs)
  locals := map_fst_locals _
  mem_locals x slot := mem_locals_iff (nodup_served rs)
  increasing := pairwise_locals _

end Slots

/-- The slots as a map from names, beside the names in the order of their indices and the number of
parameters. -/
structure SlotMap where
  map : Table Slot := .empty
  order : List String := []
  parameterCount : Nat := 0

namespace SlotMap

/-- Indices and the number of parameters are kept in 32 bits. -/
def word (n : Nat) : Nat := n % 4294967296

def alloc (m : SlotMap) (x : String) (t : NumType) : Slot × SlotMap :=
  match m.map.find? x with
  | some slot => (slot, m)
  | none =>
    (⟨word m.order.length, t⟩,
      { m with map := m.map.insert x ⟨word m.order.length, t⟩, order := m.order ++ [x] })

def addParameter (m : SlotMap) (x : String) (t : NumType) : Slot × SlotMap :=
  let (slot, m) := m.alloc x t
  (slot, { m with parameterCount := word m.order.length })

def locals (m : SlotMap) : List (String × Slot) :=
  (m.order.drop m.parameterCount).filterMap fun x => (m.map.find? x).map (x, ·)

def serve (m : SlotMap) : SlotRequest → Option Slot × SlotMap
  | .parameter x t => (some (m.addParameter x t).1, (m.addParameter x t).2)
  | .alloc x t => (some (m.alloc x t).1, (m.alloc x t).2)
  | .get x => (m.map.find? x, m)

/-- The map, the order and the count are those of `s`. -/
structure Keeps (m : SlotMap) (s : Slots) : Prop where
  map : ∀ x, m.map.find? x = s.find? x
  order : m.order = s.names
  count : m.parameterCount = s.parameterCount

namespace Keeps

variable {m : SlotMap} {s : Slots}

theorem alloc (h : m.Keeps s) {x : String} {t : NumType} (hfit : (s.alloc x t).2.names.length < 4294967296) :
    (m.alloc x t).1 = (s.alloc x t).1 ∧ (m.alloc x t).2.Keeps (s.alloc x t).2 := by
  obtain ⟨slot, -, hslot, halloc⟩ | ⟨-, hnone, halloc⟩ := s.alloc_cases x t
  · have halloc' : m.alloc x t = (slot, m) := by
      unfold SlotMap.alloc
      rw [h.map, hslot]
    rw [halloc, halloc']
    exact ⟨rfl, h⟩
  · rw [halloc] at hfit ⊢
    have hword : word m.order.length = s.entries.length := by
      rw [h.order, Slots.names, List.length_map]
      rw [Slots.names, List.length_map, List.length_append] at hfit
      exact Nat.mod_eq_of_lt (Nat.lt_of_le_of_lt (Nat.le_add_right _ _) hfit)
    have halloc' : m.alloc x t = (⟨s.entries.length, t⟩,
        { m with map := m.map.insert x ⟨s.entries.length, t⟩, order := m.order ++ [x] }) := by
      unfold SlotMap.alloc
      rw [h.map, hnone, hword]
    rw [halloc']
    refine ⟨rfl, ?_, ?_, h.count⟩
    · intro y
      rw [Table.find?_insert]
      unfold Slots.find? at hnone ⊢
      rw [Slots.findFrom_append, Nat.zero_add, Slots.findFrom, Slots.findFrom]
      by_cases hy : y = x
      · subst hy
        rw [if_pos rfl, if_pos rfl, hnone]
        rfl
      · rw [if_neg hy, if_neg (Ne.symm hy), Option.or_none]
        exact h.map y
    · change m.order ++ [x] = (s.entries ++ [(x, t)]).map (·.1)
      rw [h.order, List.map_append]
      rfl

theorem serve (h : m.Keeps s) {r : SlotRequest} (hfit : (s.serve r).2.names.length < 4294967296) :
    (m.serve r).1 = (s.serve r).1 ∧ (m.serve r).2.Keeps (s.serve r).2 := by
  cases r with
  | parameter x t =>
    change (s.alloc x t).2.names.length < 4294967296 at hfit
    obtain ⟨hanswer, hkeeps⟩ := h.alloc hfit
    refine ⟨congrArg some hanswer, hkeeps.map, hkeeps.order, ?_⟩
    change word (m.alloc x t).2.order.length = (s.alloc x t).2.entries.length
    rw [hkeeps.order, word, Nat.mod_eq_of_lt hfit, Slots.names, List.length_map]
  | alloc x t =>
    obtain ⟨hanswer, hkeeps⟩ := h.alloc hfit
    exact ⟨congrArg some hanswer, hkeeps⟩
  | get x => exact ⟨h.map x, h⟩

/-- Step by step both give the same answers. -/
theorem run (h : m.Keeps s) {rs : List SlotRequest}
    (hfit : (after Slots.serve s rs).names.length < 4294967296) :
    answers SlotMap.serve m rs = answers Slots.serve s rs ∧
      (after SlotMap.serve m rs).Keeps (after Slots.serve s rs) := by
  induction rs generalizing m s with
  | nil => exact ⟨rfl, h⟩
  | cons r rs ih =>
    -- Names are only added, so that they fit their words before as well.
    have hle := ((s.serve r).2.isPrefix_after rs).length_le
    have hstep : (s.serve r).2.names.length < 4294967296 := by
      rw [Slots.names, List.length_map] at hfit ⊢
      exact Nat.lt_of_le_of_lt hle hfit
    obtain ⟨hanswer, hkeeps⟩ := h.serve hstep
    obtain ⟨hanswers, hend⟩ := ih hkeeps hfit
    exact ⟨congrArg₂ List.cons hanswer hanswers, hend⟩

theorem locals_eq (h : m.Keeps s) (hnd : s.names.Nodup) : m.locals = s.locals := by
  rw [SlotMap.locals, h.order, h.count, ← Slots.map_fst_locals, List.filterMap_map]
  refine (List.filterMap_congr ?_).trans List.filterMap_some
  rintro ⟨x, slot⟩ hmem
  have hfind := ((Slots.mem_locals_iff hnd).mp hmem).1
  change (m.map.find? x).map (x, ·) = some (x, slot)
  rw [h.map, hfind]
  rfl

end Keeps

end SlotMap

open Slots

/-- Whatever is asked of the slots of a function, in whatever order, their names are the allocated ones, each once
and at the place that is its index, and the locals are those from the number of parameters on. A slot stays as
it is once it has been given out: an answer is what is found under the name from then on, and a new name gets
the next index and the type of its request. If all parameters come first, under distinct names, they have
the first indices in their order, and all other names are locals. As long as they fit 32 bits, a map, the order
and the count, each kept on its own, stay in step with the slots and give the same answers. -/
theorem slots_stay_in_order (rs : List SlotRequest) :
    (served rs).Numbered rs ∧
    (∀ later x slot, (served rs).find? x = some slot → (served (rs ++ later)).find? x = some slot) ∧
    (∀ r, (served (rs ++ [r])).find? r.name = ((served rs).serve r).1) ∧
    (∀ r x t, r.entry? = some (x, t) → x ∉ (served rs).names →
      ((served rs).serve r).1 = some ⟨(served rs).names.length, t⟩) ∧
    (∀ before later, rs = before ++ later → (∀ x t, .alloc x t ∉ before) →
      (∀ x t, .parameter x t ∉ later) → ((before.filterMap parameter?).map (·.1)).Nodup →
      (∀ k x t, (before.filterMap parameter?)[k]? = some (x, t) → (served rs).find? x = some ⟨k, t⟩) ∧
      (served rs).names = (before.filterMap parameter?).map (·.1) ++ (served rs).locals.map (·.1)) ∧
    ((served rs).names.length < 4294967296 →
      answers SlotMap.serve {} rs = answers Slots.serve {} rs ∧
      (after SlotMap.serve {} rs).Keeps (served rs) ∧
      (after SlotMap.serve {} rs).locals = (served rs).locals) := by
  refine ⟨numbered_served rs, ?_, ?_, ?_, ?_, ?_⟩
  · intro later x slot hx
    rw [served_append]
    exact find?_of_isPrefix (isPrefix_after _ later) hx
  · intro r
    rw [served_append]
    exact find?_serve _ r
  · intro r x t hr hx
    rw [names, List.length_map]
    cases r with
    | parameter y u | alloc y u =>
      cases hr
      exact congrArg (fun a : Slot × Slots => some a.1) (alloc_of_not_mem hx t)
    | get y => cases hr
  · rintro before later rfl hb hl hnd
    exact served_parameters_first hb hl hnd
  · intro hfit
    have hempty : SlotMap.Keeps {} {} := ⟨fun _ => rfl, rfl, rfl⟩
    obtain ⟨hanswers, hkeeps⟩ := hempty.run hfit
    exact ⟨hanswers, hkeeps, hkeeps.locals_eq (nodup_served rs)⟩

/-- Parameters that are asked for again as locals, and a local that is asked for at two types. -/
theorem slots_stay_in_order_with_repeats :
    ∃ before later : List SlotRequest, (∀ x t, .alloc x t ∉ before) ∧ (∀ x t, .parameter x t ∉ later) ∧
      ((before.filterMap parameter?).map (·.1)).Nodup ∧
      (served (before ++ later)).find? "a" = some ⟨0, .i32⟩ ∧
      (served (before ++ later)).find? "b" = some ⟨1, .f64⟩ ∧
      (served (before ++ later)).names = ["a", "b"] ++ (served (before ++ later)).locals.map (·.1) ∧
      (served (before ++ later)).locals = [("c", ⟨2, .i32⟩)] ∧
      answers SlotMap.serve {} (before ++ later) = answers Slots.serve {} (before ++ later) := by
  obtain ⟨-, -, -, -, hfirst, hmap⟩ := slots_stay_in_order
    ([.get "a", .parameter "a" .i32, .parameter "b" .f64] ++
      [.alloc "c" .i32, .alloc "a" .f64, .get "b", .alloc "c" .i64])
  obtain ⟨hplace, hnames⟩ := hfirst _ _ rfl (by simp) (by simp) (by decide)
  exact ⟨_, _, by simp, by simp, by decide, hplace 0 "a" .i32 rfl, hplace 1 "b" .f64 rfl, hnames, by decide,
    (hmap (by decide)).1⟩

end Numlet
