import Numlet.Proofs.Check.Stores
import Numlet.Proofs.Scoping

/-!
The storage of a checked function is exact. It has a slot for every declaration and no other, each slot
has the widest type that is stored into it anywhere in the body, and every use of a local has that type,
wherever it stands.
-/
namespace Numlet
open Checking

/-- The local that an expression reads or stores into, at the type of the expression. -/
def Typed.Expr.local? : Expr → Option (String × NumType)
  | .var slot type _ | .update _ slot type _ | .assign slot _ type _ => some (slot, type)
  | .literal _ _ _ | .binary _ _ _ _ _ _ | .unary _ _ _ _ | .convert _ _ _ _ _
  | .call _ _ _ _ _ _ => none

/-- A storage that says of every local of a body what it has to hold, and nothing else. -/
structure Typed.Function.StorageExact (f : Function) (body : List Numlet.Stmt) : Prop where
  /-- The slots are those of the declarations of the source, and what is declared with a type has it. -/
  declarations : ∃ sites, f.Renames body sites ∧
    (∀ slot, (f.storage.find? slot).isSome = true ↔ ∃ k, k < sites.length ∧ slot = slotAt sites k) ∧
    ∀ k site type, sites[k]? = some site → site.declared = some type →
      f.storage.find? (slotAt sites k) = some type
  slots : ∀ slot, (f.storage.find? slot).isSome = true ↔ slot ∈ f.stores.map Prod.fst
  widest : ∀ slot type, f.storage.find? slot = some type ↔
    (slot, type) ∈ f.stores ∧ ∀ a, (slot, a) ∈ f.stores → a.rank ≤ type.rank
  locals : ∀ x ∈ exprsOfStmts f.body, ∀ slot type, x.local? = some (slot, type) →
    f.storage.find? slot = some type

/-- Parameters with names of their own are stored under their names. -/
theorem Checker.declared_stored (ps : List Typed.Parameter) (s : Checker)
    (hnd : (ps.map (·.name)).Nodup) (hs : ∀ p ∈ ps, s.Unmet p.name) :
    (ps.foldl (fun s p => s.declared p.name p.type true) s).storage =
      s.storage.stored (ps.map fun p => (p.name, p.type)) := by
  induction ps generalizing s with
  | nil => rfl
  | cons q ps ih =>
    rw [List.map_cons, List.nodup_cons] at hnd
    rw [List.forall_mem_cons] at hs
    have hfirst : (s.declared q.name q.type true).storage = s.storage.widen q.name q.type := by
      change s.storage.widen (s.nextSlot q.name) q.type = _
      rw [hs.1.nextSlot]
    have hrest := ih (s.declared q.name q.type true) hnd.2 fun p hp =>
      hs.1.declared (hs.2 p hp) (fun heq => hnd.1 (heq ▸ List.mem_map_of_mem hp)) _ _
    rw [hfirst] at hrest
    exact hrest

/-- The storage of a body is made by its stores. -/
theorem BodySource.stored {p : Program} {f : Typed.Function} {body : List Stmt}
    (h : BodySource p f body) : f.storage = Table.empty.stored f.stores := by
  obtain ⟨⟨scope, s, s', hp, hempty, hstorage⟩, hnd, -, -⟩ := h
  obtain ⟨readTypes, s₀, s₁, number, ⟨hrun⟩, -, -, rfl⟩ :=
    hp.final (P := fun _ => True) (fun _ _ _ _ _ _ => trivial) trivial
  have hentered := s₀.entered_steps (N := fun _ => True) scope readTypes f.parameters
    fun _ _ => trivial
  have hstart := Checker.declared_stored f.parameters (s₀.fresh scope readTypes) hnd
    fun p _ => .fresh hempty p.name
  rw [Typed.Function.stores, Table.stored_append, ← hstorage]
  exact (hrun.stored (hentered.bound (Checker.bound_fresh hempty))).trans
    (congrArg (Table.stored · _) hstart)

theorem ProgramRun.storageExact {p : Program} {options : Options} {typed : Typed.Program}
    {z : Checker} (h : ProgramRun p options typed z) (hspelled : p.Spelled) {f : Typed.Function}
    (hf : f ∈ typed.bodies) {body : List Stmt} (hsource : BodySource p f body) :
    f.StorageExact body := by
  have hstored := hsource.stored
  obtain ⟨n, hrenames, s, hnamed, hsame⟩ := hsource.named hspelled
  refine ⟨⟨n.sites, hrenames, ?_, ?_⟩, fun slot => ?_, fun slot type => ?_, fun x hx slot type hl => ?_⟩
  · rw [← hsame]
    exact hnamed.stored
  · rw [← hsame]
    exact hnamed.declared
  · rw [hstored]
    exact Table.isSome_find?_stored
  · rw [hstored]
    exact Table.find?_stored_iff
  · -- The last pass reads what it ends with, so that soundness is about this very storage.
    have hok := (h.sound f hf).exprs x hx
    cases x with
    | var | update =>
      cases hl
      exact hok
    | assign =>
      cases hl
      exact hok.1
    | literal | binary | unary | convert | call => cases hl

/-- The storage of every function of an accepted program is exact, and so is that of its top-level
statements. -/
theorem check_storage_exact {p : Program} {options : Options} {typed : Typed.Program} {z : Checker}
    (hspelled : p.Spelled) (h : p.check options = .ok typed z) :
    List.Forall₂ (fun g f => f.name = g.name ∧ f.parameters = g.typedParameters ∧
      f.StorageExact g.body) p.functions typed.functions ∧
    typed.entry.parameters = [] ∧ typed.entry.StorageExact p.body := by
  have hrun := ProgramRun.of_check h
  have hentry : typed.entry ∈ typed.bodies := List.mem_append_right _ List.mem_cons_self
  have hpaired := (List.forall₂_and_left _ _).mpr ⟨fun f hf => hf, hrun.function_sources.flip⟩
  refine ⟨hpaired.flip.imp ?_, hrun.entry_source.1,
    hrun.storageExact hspelled hentry hrun.entry_source.2⟩
  rintro g f ⟨hf, hname, hparameters, hsource⟩
  exact ⟨hname, hparameters, hrun.storageExact hspelled (List.mem_append_left _ hf) hsource⟩

/-- The block widens `x` after it was read, and where the names around it do not see that. -/
theorem check_storage_widened_in_block :
    ∃ p typed z,
      Program.ofSource "let x = 1; y = x; \x7b x = 2.5; \x7d let n: i64 = 3; n = x as i32;" "" = .ok p ∧
      p.Spelled ∧ p.check {} = .ok typed z ∧ typed.entry.StorageExact p.body ∧
        typed.entry.stores =
          [("x", .i32), ("y", .f32), ("x", .f32), ("n", .i64), ("n", .i32)] ∧
        typed.entry.storage.find? "y" = some .f32 ∧ typed.entry.storage.find? "n" = some .i64 := by
  obtain ⟨p, hp, hspelled, hchecked⟩ := exists_ok_of_decide
    (P := fun p : Program => (∀ name ∈ p.names, Text.isWord name = true) ∧
      (match p.check {} with
        | .ok typed _ => decide (typed.entry.stores =
            [("x", .i32), ("y", .f32), ("x", .f32), ("n", .i64), ("n", .i32)] ∧
          typed.entry.storage.find? "y" = some .f32 ∧ typed.entry.storage.find? "n" = some .i64)
        | .error _ _ => false) = true)
    (x := Program.ofSource "let x = 1; y = x; \x7b x = 2.5; \x7d let n: i64 = 3; n = x as i32;" "")
    (by decide +kernel)
  cases hc : p.check {} with
  | error d z =>
    rw [hc] at hchecked
    cases hchecked
  | ok typed z =>
    rw [hc] at hchecked
    exact ⟨p, typed, z, hp, hspelled, hc, (check_storage_exact hspelled hc).2.2,
      of_decide_eq_true hchecked⟩

end Numlet
