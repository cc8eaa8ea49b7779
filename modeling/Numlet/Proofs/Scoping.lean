import Numlet.Proofs.Check.Locals
import Numlet.Proofs.Check.Renaming
import Numlet.Proofs.Tree.Resolved

/-!
Checking keeps the source. Without its types a checked body is the body that lexical scoping resolves,
statement for statement, with a slot of its own for every declaration.
-/
namespace Numlet

/-- A checked function whose body is `body` with every local renamed to the slot of its declaration,
and back. Lexical scoping finds the declarations `sites`, the parameters first. -/
structure Typed.Function.Renames (f : Function) (body : List Numlet.Stmt) (sites : List Site) :
    Prop where
  outline : ∃ outline bound,
    resolveStmts body (.ofParameters f.parameters) = some (outline, ⟨bound, sites⟩) ∧
      Typed.outlineStmts f.body = Outline.mapStmts (slotAt sites) outline ∧
      Outline.mapStmts (siteOf sites) (Typed.outlineStmts f.body) = outline
  distinct : ∀ k l, k < sites.length → l < sites.length → slotAt sites k = slotAt sites l → k = l
  parameters : ∀ k p, f.parameters[k]? = some p → slotAt sites k = p.name

/-- The end of checking a body, next to the end of resolving it. -/
theorem BodySource.named {p : Program} {f : Typed.Function} {body : List Stmt}
    (h : BodySource p f body) (hspelled : p.Spelled) :
    ∃ n, f.Renames body n.sites ∧ ∃ s : Checker, s.Named n ∧ s.storage = f.storage := by
  obtain ⟨⟨scope, s, s', hp, hempty, hstorage⟩, hnd, hnames, -⟩ := h
  have hdot : ∀ name ∈ f.parameters.map (·.name) ++ namesOfStmts body, Dotless name :=
    fun name hn => dot_not_mem_of_isWord (hspelled name (hnames name hn))
  rw [List.forall_mem_append, List.forall_mem_map] at hdot
  obtain ⟨outline, n, s₁, hresolve, houtline, hsites, hnamed, hsame⟩ :=
    hp.renamed hempty hdot.1 hdot.2
  have hlocals := (resolveStmts_leads body hresolve (Naming.bounded_ofParameters _)).locals
  have hback : Outline.mapStmts (siteOf n.sites) (Typed.outlineStmts f.body) = outline := by
    rw [houtline]
    exact Outline.mapStmts_mapStmts outline fun k hk => siteOf_slotAt hnamed.dotless (hlocals k hk)
  exact ⟨n, ⟨⟨outline, n.bound, hresolve, houtline, hback⟩, fun k l => slotAt_inj hnamed.dotless,
    fun k q => slotAt_parameter hnd hsites⟩, s₁, hnamed, hsame.trans hstorage⟩

theorem BodySource.renames {p : Program} {f : Typed.Function} {body : List Stmt}
    (h : BodySource p f body) (hspelled : p.Spelled) : ∃ sites, f.Renames body sites := by
  obtain ⟨n, hrenames, -⟩ := h.named hspelled
  exact ⟨n.sites, hrenames⟩

/-- The functions of an accepted program and its top-level statements are kept as they are written, in
their order, and every local has the slot of the declaration that it means. -/
theorem check_renames_source {p : Program} {options : Options} {typed : Typed.Program} {z : Checker}
    (hspelled : p.Spelled) (h : p.check options = .ok typed z) :
    List.Forall₂ (fun g f => f.name = g.name ∧ f.parameters = g.typedParameters ∧
      ∃ sites, f.Renames g.body sites) p.functions typed.functions ∧
    typed.entry.parameters = [] ∧ ∃ sites, typed.entry.Renames p.body sites := by
  have hrun := ProgramRun.of_check h
  refine ⟨hrun.function_sources.imp ?_, hrun.entry_source.1, hrun.entry_source.2.renames hspelled⟩
  rintro g f ⟨hname, hparameters, hsource⟩
  exact ⟨hname, hparameters, hsource.renames hspelled⟩

/-- A name that is declared again in a block, and by an assignment in a later loop. -/
theorem check_renames_shadowed :
    ∃ p typed z, Program.ofSource
        "let x = 1; \x7b let x = x + 1; print x; \x7d print x; while (x < 3) \x7b y = x++; \x7d y = x;" "" =
        .ok p ∧
      p.Spelled ∧ p.check {} = .ok typed z ∧ ∃ sites, typed.entry.Renames p.body sites ∧
        (List.range sites.length).map (slotAt sites) = ["x", "x.1", "y", "y.1"] := by
  obtain ⟨p, hp, hspelled, hslots, hchecked⟩ := exists_ok_of_decide
    (P := fun p : Program => (∀ name ∈ p.names, Text.isWord name = true) ∧
      (resolveStmts p.body {}).map (fun r => (List.range r.2.sites.length).map (slotAt r.2.sites)) =
        some ["x", "x.1", "y", "y.1"] ∧
      (match p.check {} with | .ok _ _ => true | .error _ _ => false) = true)
    (x := Program.ofSource
      "let x = 1; \x7b let x = x + 1; print x; \x7d print x; while (x < 3) \x7b y = x++; \x7d y = x;" "")
    (by decide +kernel)
  cases hc : p.check {} with
  | error d z =>
    rw [hc] at hchecked
    cases hchecked
  | ok typed z =>
    obtain ⟨-, hnone, sites, hrenames⟩ := check_renames_source hspelled hc
    refine ⟨p, typed, z, hp, hspelled, hc, sites, hrenames, ?_⟩
    obtain ⟨outline, bound, hresolve, -⟩ := hrenames.outline
    rw [hnone] at hresolve
    rw [show resolveStmts p.body {} = _ from hresolve] at hslots
    exact Option.some.inj hslots

end Numlet
