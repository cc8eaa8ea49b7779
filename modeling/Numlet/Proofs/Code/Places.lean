import Numlet.Proofs.Code.Typing

/-!
The code of every statement of a body, where it stands: some of the lines of the body, inside some of its
labels. Each of them leaves the stack as it finds it.
-/
namespace Numlet

/-- The code of a statement and the labels around it, the innermost first. -/
structure Place where
  stmt : Typed.Stmt
  labels : List Label
  code : List Node

namespace Typed

namespace Context

variable (c : Context)

def place (labels : List Label) (inner next : Nat) (s : Stmt) : Place :=
  ⟨s, labels, c.stmtNodes inner next s⟩

mutual

/-- The places of the statements in a statement, itself included. -/
def places (labels : List Label) (inner next : Nat) : Stmt → List Place
  | .branch condition yes no span =>
    places labels inner next yes ++ places? labels inner (next + yes.loopCount) no ++
      [c.place labels inner next (.branch condition yes no span)]
  | .loop start condition body step span =>
    let label := next + loopCount? start
    places? labels inner next start ++
      places (.next label :: .head label :: .exit label :: labels) label (label + 1) body ++
      places? (.head label :: .exit label :: labels) inner (label + 1 + body.loopCount) step ++
      [c.place labels inner next (.loop start condition body step span)]
  | .block body span =>
    placesAll labels inner next body ++ [c.place labels inner next (.block body span)]
  | s => [c.place labels inner next s]

def places? (labels : List Label) (inner next : Nat) : Option Stmt → List Place
  | none => []
  | some s => places labels inner next s

def placesAll (labels : List Label) (inner next : Nat) : List Stmt → List Place
  | [] => []
  | s :: ss => places labels inner next s ++ placesAll labels inner (next + s.loopCount) ss

end

mutual

/-- Every statement has its place. -/
theorem map_places (labels : List Label) (inner next : Nat) (st : Stmt) :
    (c.places labels inner next st).map (·.stmt) = st.parts := by
  match st with
  | .declare .. | .assign .. | .breakLoop _ | .continueLoop _ | .returnValue .. | .print ..
  | .expression _ | .call .. => rfl
  | .branch e yes no span => simp [places, Stmt.parts, place, map_places, map_places?]
  | .loop start e body step span => simp [places, Stmt.parts, place, map_places, map_places?]
  | .block body span => simp [places, Stmt.parts, place, map_placesAll]

theorem map_places? (labels : List Label) (inner next : Nat) (st : Option Stmt) :
    (c.places? labels inner next st).map (·.stmt) = partsOfStmt? st := by
  match st with
  | none => rfl
  | some st => exact map_places labels inner next st

theorem map_placesAll (labels : List Label) (inner next : Nat) (sts : List Stmt) :
    (c.placesAll labels inner next sts).map (·.stmt) = partsOfStmts sts := by
  match sts with
  | [] => rfl
  | st :: sts => simp [placesAll, partsOfStmts, map_places, map_placesAll]

end

end Context

/-- The places of the statements of a function. -/
def Function.places (f : Function) (p : Program) : List Place :=
  (f.context p).placesAll [] 0 0 f.body

end Typed

namespace Node

theorem infix_cond_yes (r : Option NumType) (yes : List Node) (no : Option (List Node)) :
    flatten yes <:+: flatten [.cond r yes no] :=
  ⟨[opening r], flattenElse no ++ [.finish], by simp [flat]⟩

theorem infix_cond_no (r : Option NumType) (yes no : List Node) :
    flatten no <:+: flatten [.cond r yes (some no)] :=
  ⟨opening r :: flatten yes ++ [.orElse], [.finish], by simp [flat, flattenElse]⟩

/-- The body of a loop and its step in the frame of the loop. -/
theorem infix_loop (n : Nat) (test body step : List Node) :
    flatten body <:+: flatten [.block (.exit n) [.loop (.head n)
      (test ++ [.block (.next n) body] ++ step ++ [.plain (.br (.head n)) rfl])]] ∧
    flatten step <:+: flatten [.block (.exit n) [.loop (.head n)
      (test ++ [.block (.next n) body] ++ step ++ [.plain (.br (.head n)) rfl])]] := by
  constructor
  · exact ⟨[.block (.exit n), .loop (.head n)] ++ flatten test ++ [.block (.next n)],
      [.finish] ++ flatten step ++ [.br (.head n), .finish, .finish], by simp [flat]⟩
  · exact ⟨[.block (.exit n), .loop (.head n)] ++ flatten test ++ [.block (.next n)] ++
      flatten body ++ [.finish], [.br (.head n), .finish, .finish], by simp [flat]⟩

theorem infix_append_left {ns ms : List Node} {code : List Instr} (h : code <:+: flatten ns) :
    code <:+: flatten (ns ++ ms) := by
  rw [flatten_append]
  exact h.trans (List.prefix_append _ _).isInfix

theorem infix_append_right {ns ms : List Node} {code : List Instr} (h : code <:+: flatten ms) :
    code <:+: flatten (ns ++ ms) := by
  rw [flatten_append]
  exact h.trans (List.suffix_append _ _).isInfix

end Node

namespace Typed.Context

variable (c : Context)

mutual

/-- The places of a statement are among its lines. -/
theorem places_lines (labels : List Label) (inner next : Nat) (st : Stmt) :
    ∀ q ∈ c.places labels inner next st,
      Node.flatten q.code <:+: Node.flatten (c.stmtNodes inner next st) := by
  match st with
  | .declare .. | .assign .. | .breakLoop _ | .continueLoop _ | .returnValue .. | .print ..
  | .expression _ | .call .. =>
    intro q hq
    cases List.mem_singleton.mp hq
    exact List.infix_rfl
  | .branch e yes no span =>
    simp only [places, List.forall_mem_append, List.forall_mem_singleton]
    refine ⟨⟨fun q hq => ?_, fun q hq => ?_⟩, List.infix_rfl⟩
    · exact Node.infix_append_right
        ((places_lines labels inner next yes q hq).trans (Node.infix_cond_yes none _ _))
    · exact Node.infix_append_right (places_lines_else labels inner _ no _ q hq)
  | .loop start e body step span =>
    simp only [places, List.forall_mem_append, List.forall_mem_singleton]
    refine ⟨⟨⟨fun q hq => ?_, fun q hq => ?_⟩, fun q hq => ?_⟩, List.infix_rfl⟩
    · exact Node.infix_append_left (places?_lines labels inner next start q hq)
    · exact Node.infix_append_right ((places_lines _ _ _ body q hq).trans (Node.infix_loop _ _ _ _).1)
    · exact Node.infix_append_right ((places?_lines _ _ _ step q hq).trans (Node.infix_loop _ _ _ _).2)
  | .block body span =>
    simp only [places, List.forall_mem_append, List.forall_mem_singleton]
    exact ⟨placesAll_lines labels inner next body, List.infix_rfl⟩

theorem places?_lines (labels : List Label) (inner next : Nat) (st : Option Stmt) :
    ∀ q ∈ c.places? labels inner next st,
      Node.flatten q.code <:+: Node.flatten (c.stmtNodes? inner next st) := by
  match st with
  | none => exact fun q hq => (nomatch hq)
  | some st => exact places_lines labels inner next st

theorem places_lines_else (labels : List Label) (inner next : Nat) (st : Option Stmt)
    (yes : List Node) :
    ∀ q ∈ c.places? labels inner next st,
      Node.flatten q.code <:+: Node.flatten [.cond none yes (c.elseNodes inner next st)] := by
  match st with
  | none => exact fun q hq => (nomatch hq)
  | some st =>
    intro q hq
    have hin := places_lines labels inner next st q hq
    rw [elseNodes]
    split
    · next hempty =>
      -- An empty block has no lines.
      obtain ⟨span, rfl⟩ := Stmt.isEmptyBlock_iff.mp hempty
      have hnil : Node.flatten q.code = [] := List.infix_nil.mp hin
      rw [hnil]
      exact List.nil_infix
    · exact hin.trans (Node.infix_cond_no none yes _)

theorem placesAll_lines (labels : List Label) (inner next : Nat) (sts : List Stmt) :
    ∀ q ∈ c.placesAll labels inner next sts,
      Node.flatten q.code <:+: Node.flatten (c.stmtsNodes inner next sts) := by
  match sts with
  | [] => exact fun q hq => (nomatch hq)
  | st :: sts =>
    simp only [placesAll, List.forall_mem_append]
    refine ⟨fun q hq => ?_, fun q hq => ?_⟩
    · exact Node.infix_append_left (places_lines labels inner next st q hq)
    · exact Node.infix_append_right (placesAll_lines labels inner _ sts q hq)

end

end Typed.Context

namespace CodeContext

variable {k : CodeContext} {c : Typed.Context}

/-- A place that leaves every stack as it is. -/
def Neutral (k : CodeContext) (q : Place) : Prop := ∀ s, k.Validates q.labels q.code s s

mutual

theorem places_neutral (st : Typed.Stmt) {inLoop : Bool} {inner next : Nat} {labels : List Label}
    (hk : k.Backs c) (hs : c.SoundStmt inLoop st) (he : ∀ x ∈ st.exprs, k.ExprTyped x)
    (hp : ∀ x ∈ st.parts, k.StmtTyped c x) (hl : Encloses labels inLoop inner) :
    ∀ q ∈ c.places labels inner next st, k.Neutral q := by
  have hself : k.Neutral (c.place labels inner next st) :=
    fun s => stmtNodes_validates st hk hs he hp hl
  match st with
  | .declare .. | .assign .. | .breakLoop _ | .continueLoop _ | .returnValue .. | .print ..
  | .expression _ | .call .. =>
    intro q hq
    cases List.mem_singleton.mp hq
    exact hself
  | .branch e yes no span =>
    obtain ⟨-, hyes, hno⟩ := hs.branch
    simp only [Typed.Stmt.exprs, Typed.Stmt.parts, List.forall_mem_append] at he hp
    simp only [Typed.Context.places, List.forall_mem_append, List.forall_mem_singleton]
    exact ⟨⟨places_neutral yes hk hyes he.1.2 hp.1.1 hl, places?_neutral no hk hno he.2 hp.1.2 hl⟩,
      hself⟩
  | .loop start e body step span =>
    obtain ⟨hstart, -, hbody, hstep⟩ := hs.loop
    simp only [Typed.Stmt.exprs, Typed.Stmt.parts, List.forall_mem_append] at he hp
    simp only [Typed.Context.places, List.forall_mem_append, List.forall_mem_singleton]
    refine ⟨⟨⟨?_, ?_⟩, ?_⟩, hself⟩
    · exact places?_neutral start hk hstart he.1.1.1 hp.1.1.1 hl
    · exact places_neutral body hk hbody he.1.2 hp.1.1.2 (encloses_body labels _)
    · exact places?_neutral step hk hstep he.2 hp.1.2 ((hl.cons _).cons _)
  | .block body span =>
    simp only [Typed.Stmt.parts, List.forall_mem_append] at hp
    simp only [Typed.Context.places, List.forall_mem_append, List.forall_mem_singleton]
    exact ⟨placesAll_neutral body hk hs.block he hp.1 hl, hself⟩

theorem places?_neutral (st : Option Typed.Stmt) {inLoop : Bool} {inner next : Nat}
    {labels : List Label} (hk : k.Backs c) (hs : c.SoundStmt? inLoop st)
    (he : ∀ x ∈ Typed.exprsOfStmt? st, k.ExprTyped x)
    (hp : ∀ x ∈ Typed.partsOfStmt? st, k.StmtTyped c x) (hl : Encloses labels inLoop inner) :
    ∀ q ∈ c.places? labels inner next st, k.Neutral q := by
  match st with
  | none => exact fun q hq => (nomatch hq)
  | some st => exact places_neutral st hk hs.some he hp hl

theorem placesAll_neutral (sts : List Typed.Stmt) {inLoop : Bool} {inner next : Nat}
    {labels : List Label} (hk : k.Backs c) (hs : c.SoundStmts inLoop sts)
    (he : ∀ x ∈ Typed.exprsOfStmts sts, k.ExprTyped x)
    (hp : ∀ x ∈ Typed.partsOfStmts sts, k.StmtTyped c x) (hl : Encloses labels inLoop inner) :
    ∀ q ∈ c.placesAll labels inner next sts, k.Neutral q := by
  match sts with
  | [] => exact fun q hq => (nomatch hq)
  | st :: sts =>
    simp only [Typed.exprsOfStmts, Typed.partsOfStmts, List.forall_mem_append] at he hp
    simp only [Typed.Context.placesAll, List.forall_mem_append]
    exact ⟨places_neutral st hk hs.cons.1 he.1 hp.1 hl,
      placesAll_neutral sts hk hs.cons.2 he.2 hp.2 hl⟩

end

end CodeContext

end Numlet
