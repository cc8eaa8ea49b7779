import Numlet.Proofs.Tree.Blame
import Numlet.Proofs.Tree.Nesting
import Numlet.Proofs.Tree.Progress

/-!
Reading lays out nested trees. The tokens ahead of a cursor come one behind the other, and each reading makes a
row of nodes out of the tokens that it passes. So the children of a node lie between the token that it starts
with and the last one passed.
-/
namespace Numlet

open SourceNode (Row)

namespace Cursor

variable {tokens : List Token} {c : Cursor} {lo mid : Nat} {s : Span} {n : SourceNode}

/-- The offset up to which tokens have been passed. -/
def reach (c : Cursor) : Nat := c.previousEnd.offset

/-- The tokens ahead come one behind the other, between what has been passed and the end mark. -/
structure Ordered (tokens : List Token) (c : Cursor) : Prop where
  previous : ∀ t ∈ c.previous, t ∈ tokens
  mem : ∀ t ∈ c.ahead, t ∈ tokens
  between : ∀ t ∈ c.ahead, t.span.Between tokens c.reach c.endSpan.start.offset
  sorted : c.ahead.Pairwise fun t u => t.span.stop.offset ≤ u.span.start.offset
  reach_le : c.reach ≤ c.endSpan.start.offset

namespace Ordered

theorem advance (hc : c.Ordered tokens) : c.advance.Ordered tokens := by
  unfold Cursor.advance
  split
  · exact hc
  · next t rest hahead =>
    have ht : t ∈ c.ahead := by simp [hahead]
    have hrest {u : Token} (hu : u ∈ rest) : u ∈ c.ahead := by simp [hahead, hu]
    have hsorted := hc.sorted
    rw [hahead, List.pairwise_cons] at hsorted
    refine ⟨fun u hu => ?_, fun u hu => hc.mem u (hrest hu), fun u hu => ?_, hsorted.2, (hc.between t ht).stop_le⟩
    · cases hu
      exact hc.mem t ht
    · obtain ⟨hbounded, -, hstop⟩ := hc.between u (hrest hu)
      exact ⟨hbounded, hsorted.1 u hu, hstop⟩

theorem current (hc : c.Ordered tokens) (hk : c.kind ≠ .eof) :
    c.current.span.Between tokens c.reach c.advance.reach := by
  obtain ⟨hahead, hend⟩ := Cursor.ahead_eq hk
  obtain ⟨hbounded, hstart, -⟩ := hc.between c.current (by rw [hahead]; exact List.mem_cons_self)
  exact ⟨hbounded, hstart, Nat.le_of_eq (congrArg Position.offset hend.symm)⟩

theorem reach_le_position (hc : c.Ordered tokens) : c.reach ≤ c.position.offset := by
  unfold position Cursor.current
  cases hahead : c.ahead with
  | nil => exact hc.reach_le
  | cons t rest => exact (hc.between t (by simp [hahead])).le_start

/-- From a stretch that has been passed to the last token. -/
theorem bounded (hc : c.Ordered tokens) (hs : s.Bounded tokens) (hle : s.stop.offset ≤ c.reach) :
    Span.Bounded tokens ⟨s.start, c.previousEnd⟩ := by
  have hlt : s.start.offset < c.reach := Nat.lt_of_lt_of_le hs.lt hle
  refine ⟨hs.start, ?_, hlt⟩
  unfold reach previousEnd at hlt
  unfold previousEnd
  cases hprevious : c.previous with
  | none =>
    rw [hprevious] at hlt
    exact absurd hlt (Nat.not_lt_zero _)
  | some t => exact ⟨t, hc.previous t hprevious, rfl⟩

/-- A node that goes from a stretch up to the cursor. -/
theorem row_upTo (hc : c.Ordered tokens) (hs : s.Between tokens lo mid) (hmid : mid ≤ c.reach)
    (hspan : n.span = ⟨s.start, c.previousEnd⟩) (hrow : Row tokens s.start.offset c.reach n.children) :
    Row tokens lo c.reach [n] := by
  have hbounded := hc.bounded hs.bounded (Nat.le_trans hs.stop_le hmid)
  exact .of_children hspan ⟨hbounded, hs.le_start, Nat.le_refl _⟩ hrow

/-- The same, if the children come behind the stretch. -/
theorem row_after (hc : c.Ordered tokens) (hs : s.Between tokens lo mid)
    (hspan : n.span = ⟨s.start, c.previousEnd⟩) (hrow : Row tokens mid c.reach n.children) :
    Row tokens lo c.reach [n] := by
  refine hc.row_upTo hs hrow.le hspan (hrow.extend_left ?_)
  exact Nat.le_trans (Nat.le_of_lt hs.bounded.lt) hs.stop_le

end Ordered

end Cursor

namespace Reading

variable {α β : Type} {tokens : List Token} {c : Cursor} {m m' : Reading α} {P : Nat → α → Prop}
  {Q : Nat → β → Prop} {lo : Nat}

/-- A reading that succeeds from a cursor in order leaves one in order, and its value fits the offset that it
has reached. -/
def Lays (tokens : List Token) (c : Cursor) (m : Reading α) (P : Nat → α → Prop) : Prop :=
  c.Ordered tokens → ∀ a c', m c = .ok a c' → c'.Ordered tokens ∧ P c'.reach a

/-- The values of a reading hold nodes that come one behind the other in what it has passed. -/
def Rows (tokens : List Token) (nodes : α → List SourceNode) (m : Reading α) : Prop :=
  ∀ c, Lays tokens c m fun hi a => Row tokens c.reach hi (nodes a)

namespace Lays

theorem congr (h : m c = m' c) (h' : Lays tokens c m' P) : Lays tokens c m P :=
  fun hc a c' hrun => h' hc a c' (h.symm.trans hrun)

theorem of_error {d : Diagnostic} (h : m c = .error d c) : Lays tokens c m P :=
  fun _ a c' hrun => by rw [h] at hrun; cases hrun

theorem of_ok {a : α} (h : m c = .ok a c) (ha : c.Ordered tokens → P c.reach a) : Lays tokens c m P := by
  intro hc a' c' hrun
  rw [h] at hrun
  cases hrun
  exact ⟨hc, ha hc⟩

theorem bind {k : α → Reading β} (h : Lays tokens c m P)
    (hk : ∀ a c', P c'.reach a → Lays tokens c' (k a) Q) : Lays tokens c (m >>= k) Q := by
  intro hc b c' hrun
  obtain ⟨a, c₁, hm, hrest⟩ := bind_eq_ok.mp hrun
  obtain ⟨hc₁, ha⟩ := h hc a c₁ hm
  exact hk a c₁ ha hc₁ b c' hrest

theorem map (f : α → β) (h : Lays tokens c m P) (hf : ∀ hi a, P hi a → Q hi (f a)) :
    Lays tokens c (f <$> m) Q := by
  intro hc b c' hrun
  obtain ⟨a, hm, rfl⟩ := map_eq_ok.mp hrun
  obtain ⟨hc', ha⟩ := h hc a c' hm
  exact ⟨hc', hf _ a ha⟩

theorem take (hk : c.kind ≠ .eof) : Lays tokens c take fun hi t => t.span.Between tokens c.reach hi := by
  intro hc t c' hrun
  obtain ⟨rfl, rfl⟩ := take_eq_ok hrun
  exact ⟨hc.advance, hc.current hk⟩

theorem atKind {k : Kind} {l : Reading α} (h : c.kind = k → Lays tokens c m P)
    (h' : c.kind ≠ k → Lays tokens c l P) : Lays tokens c (fun c => if c.kind = k then m c else l c) P := by
  by_cases hk : c.kind = k
  · exact congr (if_pos hk) (h hk)
  · exact congr (if_neg hk) (h' hk)

theorem expect {k : Kind} (hk : k ≠ .eof) :
    Lays tokens c (expect k) fun hi t => t.span.Between tokens c.reach hi :=
  atKind (fun hc => take (hc ▸ hk)) fun _ => of_error rfl

theorem expectOr {k : Kind} (hk : k ≠ .eof) (message : String) :
    Lays tokens c (expectOr k message) fun hi t => t.span.Between tokens c.reach hi :=
  atKind (fun hc => take (hc ▸ hk)) fun _ => of_error rfl

end Lays

namespace Rows

variable {nodes : α → List SourceNode} {node : α → SourceNode}

theorem some_map (h : Rows tokens (fun a => [node a]) m) :
    Rows tokens (fun a => a.toList.map node) (some <$> m) :=
  fun c => (h c).map some fun _ _ ha => ha

theorem pure_none : Rows tokens (fun a => a.toList.map node) (pure none : Reading (Option α)) :=
  fun _ => .of_ok rfl fun _ => Nat.le_refl _

theorem unlessAt (k : Kind) (h : Rows tokens (fun a => [node a]) m) :
    Rows tokens (fun a => a.toList.map node) (unlessAt k m) :=
  fun c => .atKind (fun _ => pure_none c) fun _ => h.some_map c

theorem passed {k : Kind} (hk : k ≠ .eof) : Rows tokens (fun _ => []) (passed k) := by
  intro c hc a c' hrun
  unfold Reading.passed at hrun
  split at hrun
  · next hkind =>
    cases hrun
    exact ⟨hc.advance, (hc.current (hkind ▸ hk)).le⟩
  · cases hrun
    exact ⟨hc, Nat.le_refl _⟩

/-- The rounds of a loop make one row. -/
theorem many (stop : Kind) (h : Rows tokens (fun a => [node a]) m) :
    Rows tokens (List.map node) (many stop m) := by
  intro c hc as c' hrun
  fun_induction Reading.many stop m c generalizing as c' with
  | case1 c hk =>
    cases hrun
    exact ⟨hc, Nat.le_refl _⟩
  | case2 | case3 => cases hrun
  | case4 c hk a c₁ hitem hlt as c₂ hmany ih =>
    cases hrun
    obtain ⟨hc₁, ha⟩ := h c hc a c₁ hitem
    obtain ⟨hc₂, has⟩ := ih hc₁ _ _ hmany
    exact ⟨hc₂, ha.append has⟩
  | case5 => cases hrun

theorem listItem (message : String) (h : Rows tokens nodes m) : Rows tokens nodes (listItem m message) := by
  intro c hc a c' hrun
  obtain ⟨c₁, hitem, ⟨hcomma, rfl⟩ | ⟨-, rfl⟩⟩ := listItem_eq_ok hrun
  · obtain ⟨hc₁, ha⟩ := h c hc a c₁ hitem
    have hle := (hc₁.current (by simp [hcomma])).le
    exact ⟨hc₁.advance, ha.extend_right hle⟩
  · exact h c hc a _ hitem

theorem commaList (message : String) (h : Rows tokens (fun a => [node a]) m) :
    Rows tokens (List.map node) (commaList m message) := many _ (listItem message h)

theorem numType : Rows tokens (fun _ => []) numType := by
  refine fun c => (Lays.expectOr (by decide) _).bind fun word c₁ hword => ?_
  cases NumType.ofName? word.value with
  | none => exact .of_error rfl
  | some type => exact .of_ok rfl fun _ => hword.le

theorem typeAfter {mark : Kind} (hmark : mark ≠ .eof) : Rows tokens (fun _ => []) (typeAfter mark) := by
  refine fun c => (passed hmark c).bind fun found c₁ hle => ?_
  cases found with
  | false => exact .of_ok rfl fun _ => hle
  | true => exact (numType c₁).bind fun type c₂ htype => .of_ok rfl fun _ => Nat.le_trans hle htype

end Rows

/-- A part that is read if the mark before it is there. -/
theorem Lays.afterMark {mark : Kind} (hmark : mark ≠ .eof) {node : α → SourceNode} {f : Option α → Reading β}
    (h : Rows tokens (fun a => [node a]) m)
    (hf : ∀ a c', Row tokens c.reach c'.reach (a.toList.map node) → Lays tokens c' (f a) Q) :
    Lays tokens c
      (do
        let value ← if ← Reading.passed mark then some <$> m else Pure.pure none
        f value) Q := by
  refine (Rows.passed hmark c).bind fun found c₁ hle => ?_
  cases found with
  | false => exact hf none c₁ hle
  | true => exact (h.some_map c₁).bind fun a c₂ ha => hf a c₂ (ha.extend_left hle)

section Expressions

variable {e : ExprReader} {left : Expr}

/-- A reader of expressions gives nested trees. -/
def RowsExprs (tokens : List Token) (e : ExprReader) : Prop :=
  ∀ level, Rows tokens (fun t => [.expr t]) (e level)

theorem primary_rows : Rows tokens (fun t => [.expr t]) primary := by
  intro c
  refine .congr (primary_run c) ?_
  have htake (f : Token → Expr) (hk : c.kind ≠ .eof) (hspan : ∀ t, (f t).span = t.span)
      (hchildren : ∀ t, (f t).children = []) :
      Lays tokens c (do return f (← take)) fun hi t => Row tokens c.reach hi [.expr t] := by
    refine (Lays.take hk).bind fun t c₁ ht => .of_ok rfl fun _ => .of_children (hspan t) ht ?_
    change Row tokens _ _ (f t).children
    rw [hchildren]
    exact .nil (Nat.le_of_lt ht.bounded.lt)
  cases hk : c.kind with
  | number =>
    cases literal? c.current.value with
    | none => exact .of_error rfl
    | some value => exact htake (fun t => .literal value t.span) (by simp [hk]) (fun _ => rfl) fun _ => rfl
  | trueWord => exact htake (fun t => .literal (.int 1) t.span) (by simp [hk]) (fun _ => rfl) fun _ => rfl
  | falseWord => exact htake (fun t => .literal (.int 0) t.span) (by simp [hk]) (fun _ => rfl) fun _ => rfl
  | identifier => exact htake (fun t => .var c.current.value t.span) (by simp [hk]) (fun _ => rfl) fun _ => rfl
  | _ => exact .of_error rfl

theorem unary_lays (he : RowsExprs tokens e) (hk : c.kind ≠ .eof) :
    Lays tokens c (unary e) fun hi t => Row tokens c.reach hi [.expr t] := by
  refine (Lays.take hk).bind fun sign c₁ hsign => (he _ c₁).bind fun operand c₂ hoperand => ?_
  refine .of_ok rfl fun _ => .spanning hsign hoperand.between rfl ?_
  have hlt := hsign.bounded.lt
  have hle := hsign.stop_le
  obtain ⟨hnested, hlo, -⟩ := hoperand
  exact .singleton hnested (by omega) (Nat.le_refl _)

theorem group_lays (he : RowsExprs tokens e) (hk : c.kind ≠ .eof) :
    Lays tokens c (group e) fun hi t => Row tokens c.reach hi [.expr t] := by
  refine (Lays.take hk).bind fun _ c₁ hopen => (he _ c₁).bind fun inner c₂ hinner => ?_
  exact (Lays.expect (by decide)).bind fun _ c₃ hclose => .of_ok rfl fun _ =>
    hinner.widen hopen.le hclose.le

theorem opening_rows (he : RowsExprs tokens e) : Rows tokens (fun t => [.expr t]) (opening .standard e) := by
  intro c
  refine .congr (opening_run e c) ?_
  cases hk : c.kind with
  | number | identifier | trueWord | falseWord => exact primary_rows c
  | dash | plus | not => exact unary_lays he (by simp [hk])
  | openParen => exact group_lays he (by simp [hk])
  | _ => exact .of_error rfl

theorem binary_lays (he : RowsExprs tokens e) (hk : c.kind ≠ .eof) (level : Level)
    (hleft : Row tokens lo c.reach [.expr left]) :
    Lays tokens c (binary e left level) fun hi t => Row tokens lo hi [.expr t] := by
  refine (Lays.take hk).bind fun sign c₁ hsign => ?_
  cases BinaryOp.ofKind? sign.kind with
  | none => exact .of_error rfl
  | some op =>
    refine (he level c₁).bind fun right c₂ hright => .of_ok rfl fun _ => ?_
    exact (hleft.append (hright.extend_left hsign.le)).join rfl rfl

/-- The target of a compound assignment stands in its value too, and both begin where the assignment does. -/
theorem assignment_lays (he : RowsExprs tokens e) (hk : c.kind ≠ .eof)
    (hleft : Row tokens lo c.reach [.expr left]) :
    Lays tokens c (assignment e left) fun hi t => Row tokens lo hi [.expr t] := by
  refine (Lays.take hk).bind fun sign c₁ hsign => (he _ c₁).bind fun right c₂ hright => ?_
  have hboth := hleft.append (hright.extend_left hsign.le)
  cases BinaryOp.ofKind? sign.kind with
  | none => exact .of_ok rfl fun _ => hboth.join rfl rfl
  | some op =>
    refine .of_ok rfl fun _ => ?_
    have hvalue : Row tokens lo c₂.reach [.expr (.binary op left right ⟨left.span.start, right.span.stop⟩)] :=
      hboth.join rfl rfl
    obtain ⟨hleft, -, hright, hmid, -⟩ := hboth
    refine .singleton (.intro hvalue.1.bounded ?_ (fun h => absurd rfl h) ?_) hvalue.2.1 hvalue.2.2
    · refine List.forall_mem_cons.mpr ⟨⟨Nat.le_refl _, ?_⟩, List.forall_mem_singleton.mpr ?_⟩
      · exact Nat.le_trans hmid (Nat.le_of_lt hright.bounded.lt)
      · exact ⟨Nat.le_refl _, Nat.le_refl _⟩
    · exact List.forall_mem_cons.mpr ⟨hleft, List.forall_mem_singleton.mpr hvalue.1⟩

theorem call_lays (he : RowsExprs tokens e) (hk : c.kind ≠ .eof)
    (hleft : Row tokens lo c.reach [.expr left]) :
    Lays tokens c (call e left) fun hi t => Row tokens lo hi [.expr t] := by
  cases left with
  | var callee span =>
    refine (Lays.take hk).bind fun _ c₁ hopen => (Rows.commaList _ (he _) c₁).bind fun arguments c₂ hrow => ?_
    refine (Lays.expect (by decide)).bind fun _ c₃ hclose => .of_ok rfl fun hc₃ => ?_
    exact hc₃.row_after hleft.between rfl (hrow.widen hopen.le hclose.le)
  | literal | binary | unary | update | assign | convert | call => exact .of_error rfl

theorem update_lays (hk : c.kind ≠ .eof) (hleft : Row tokens lo c.reach [.expr left]) :
    Lays tokens c (update left) fun hi t => Row tokens lo hi [.expr t] := by
  refine (Lays.take hk).bind fun sign c₁ hsign => ?_
  cases left with
  | var target span =>
    refine .of_ok rfl fun _ => .spanning hleft.between hsign rfl ?_
    obtain ⟨hnested, -, hhi⟩ := hleft
    refine .singleton hnested (Nat.le_refl _) (Nat.le_trans hhi ?_)
    exact Nat.le_trans hsign.le_start (Nat.le_of_lt hsign.bounded.lt)
  | literal | binary | unary | update | assign | convert | call => exact .of_error rfl

theorem conversion_lays (hk : c.kind ≠ .eof) (hleft : Row tokens lo c.reach [.expr left]) :
    Lays tokens c (conversion left) fun hi t => Row tokens lo hi [.expr t] := by
  refine (Lays.take hk).bind fun _ c₁ hword => (Rows.numType c₁).bind fun target c₂ htype => ?_
  refine .of_ok rfl fun hc₂ => ?_
  have hle : c.reach ≤ c₂.reach := Nat.le_trans hword.le htype
  refine hc₂.row_upTo hleft.between hle rfl ?_
  exact .singleton hleft.1 (Nat.le_refl _) (Nat.le_trans hleft.2.2 hle)

/-- Each step to a longer expression keeps the one before it inside. -/
theorem continuation_lays (he : RowsExprs tokens e) (hleft : Row tokens lo c.reach [.expr left]) :
    Lays tokens c (continuation .standard e left) fun hi t => Row tokens lo hi [.expr t] := by
  refine .congr (continuation_run e left c) ?_
  cases hway : Grammar.standard.continuation? c.kind with
  | none => exact .of_error rfl
  | some way =>
    have hk := kind_ne_eof_of_continuation hway
    cases way with
    | assignment => exact assignment_lays he hk hleft
    | binary => exact binary_lays he hk _ hleft
    | conversion => exact conversion_lays hk hleft
    | call => exact call_lays he hk hleft
    | update => exact update_lays hk hleft

theorem climb_lays (he : RowsExprs tokens e) (level : Level) (hleft : Row tokens lo c.reach [.expr left]) :
    Lays tokens c (climb .standard e level left) fun hi t => Row tokens lo hi [.expr t] := by
  intro hc t c' hrun
  fun_induction climb .standard e level left c with
  | case1 | case3 => cases hrun
  | case2 left c hlt longer c₁ hstep hdown ih =>
    obtain ⟨hc₁, hlonger⟩ := continuation_lays he hleft hc longer c₁ hstep
    exact ih hlonger hc₁ hrun
  | case4 left c hle =>
    cases hrun
    exact ⟨hc, hleft⟩

theorem exprStep_rows (he : RowsExprs tokens e) (level : Level) :
    Rows tokens (fun t => [.expr t]) (exprStep .standard e level) :=
  fun c => (opening_rows he c).bind fun _ _ hleft => climb_lays he level hleft

theorem expr_rows : RowsExprs tokens (expr .standard) := by
  intro level c
  generalize hn : c.remaining = n
  induction n using Nat.strongRecOn generalizing level c with
  | ind n ih =>
    refine .congr (expr_eq level c) (exprStep_rows (fun level' c' => ?_) level c)
    by_cases hlt : c'.remaining < c.remaining
    · exact .congr (exprBehind_of_lt hlt) (ih _ (hn ▸ hlt) level' c' rfl)
    · exact .of_error (if_neg hlt)

end Expressions

section Statements

variable {s : Reading Stmt}

/-- What is closed by taking the stretch from a token to the last one passed. -/
theorem Lays.spanned {start : Token} {mid : Nat} {f : Span → α} {node : α → SourceNode} {ns : List SourceNode}
    (hstart : start.span.Between tokens lo mid) (hrow : Row tokens mid c.reach ns)
    (hspan : ∀ span, (node (f span)).span = span) (hchildren : ∀ span, (node (f span)).children = ns) :
    Lays tokens c (do return f (← spanFrom start)) fun hi a => Row tokens lo hi [node a] := by
  refine .of_ok rfl fun hc => hc.row_after hstart (hspan _) ?_
  rwa [hchildren]

theorem parameter_rows : Rows tokens (fun p => [.parameter p]) parameter := by
  intro c
  refine (Lays.expectOr (by decide) _).bind fun name c₁ hname => ?_
  refine (Rows.typeAfter (by decide) c₁).bind fun declared c₂ hle => ?_
  exact .spanned hname hle (fun _ => rfl) fun _ => rfl

theorem declaration_lays (hk : c.kind ≠ .eof) :
    Lays tokens c (declaration .standard) fun hi t => Row tokens c.reach hi [.stmt t] := by
  refine (Lays.take hk).bind fun start c₁ hstart => (Lays.expectOr (by decide) _).bind fun _ c₂ hname => ?_
  refine (Rows.typeAfter (by decide) c₂).bind fun declared c₃ hle => ?_
  refine .afterMark (by decide) (expr_rows _) fun value c₄ hvalue => ?_
  refine (Lays.expectOr (by decide) _).bind fun _ c₅ hend => ?_
  exact .spanned hstart (hvalue.widen (Nat.le_trans hname.le hle) hend.le) (fun _ => rfl) fun _ => rfl

theorem branch_lays (hs : Rows tokens (fun t => [.stmt t]) s) (hk : c.kind ≠ .eof) :
    Lays tokens c (branch .standard s) fun hi t => Row tokens c.reach hi [.stmt t] := by
  refine (Lays.take hk).bind fun start c₁ hstart => (expr_rows _ c₁).bind fun condition c₂ hcondition => ?_
  refine (hs c₂).bind fun yes c₃ hyes => .afterMark (by decide) hs fun no c₄ hno => ?_
  exact .spanned hstart (hcondition.append (hyes.append hno)) (fun _ => rfl) fun _ => rfl

theorem blockItem_rows (hs : Rows tokens (fun t => [.stmt t]) s) :
    Rows tokens (fun t => [.stmt t]) (blockItem s) :=
  fun c hc a c' hrun => hs c hc a c' (blockItem_eq_ok hrun)

theorem block_rows (hs : Rows tokens (fun t => [.stmt t]) s) :
    Rows tokens (fun b => [.stmt (.block b.1 b.2)]) (block s) := by
  refine fun c => (Lays.expectOr (by decide) _).bind fun start c₁ hstart => ?_
  refine (Rows.many _ (blockItem_rows hs) c₁).bind fun body c₂ hbody => ?_
  refine (Lays.expect (by decide)).bind fun _ c₃ hclose => ?_
  exact .spanned hstart (hbody.extend_right hclose.le) (fun _ => rfl) fun _ => rfl

theorem function_lays (hs : Rows tokens (fun t => [.stmt t]) s) (hk : c.kind ≠ .eof) :
    Lays tokens c (function s) fun hi t => Row tokens c.reach hi [.stmt t] := by
  refine (Lays.take hk).bind fun start c₁ hstart => (Lays.expectOr (by decide) _).bind fun _ c₂ hname => ?_
  refine (Lays.expect (by decide)).bind fun _ c₃ hopen => ?_
  refine (Rows.commaList _ parameter_rows c₃).bind fun parameters c₄ hparameters => ?_
  refine (Lays.expect (by decide)).bind fun _ c₅ hclose => ?_
  refine (Rows.typeAfter (by decide) c₅).bind fun result c₆ hresult => ?_
  refine (block_rows hs c₆).bind fun b c₇ hbody => ?_
  have hheader := hparameters.widen (Nat.le_trans hname.le hopen.le) (Nat.le_trans hclose.le hresult)
  exact .spanned hstart (hheader.append hbody) (fun _ => rfl) fun _ => rfl

theorem returning_lays (hk : c.kind ≠ .eof) :
    Lays tokens c (returning .standard) fun hi t => Row tokens c.reach hi [.stmt t] := by
  refine (Lays.take hk).bind fun start c₁ hstart => ?_
  refine (Rows.unlessAt _ (expr_rows _) c₁).bind fun value c₂ hvalue => ?_
  refine (Lays.expect (by decide)).bind fun _ c₃ hend => ?_
  exact .spanned hstart (hvalue.extend_right hend.le) (fun _ => rfl) fun _ => rfl

theorem whileLoop_lays (hs : Rows tokens (fun t => [.stmt t]) s) (hk : c.kind ≠ .eof) :
    Lays tokens c (whileLoop .standard s) fun hi t => Row tokens c.reach hi [.stmt t] := by
  refine (Lays.take hk).bind fun start c₁ hstart => (expr_rows _ c₁).bind fun condition c₂ hcondition => ?_
  refine (hs c₂).bind fun body c₃ hbody => ?_
  exact .spanned hstart (hcondition.append hbody) (fun _ => rfl) fun _ => rfl

theorem expression_rows : Rows tokens (fun t => [.stmt t]) (expression .standard) := by
  refine fun c => (expr_rows _ c).bind fun value c₁ hvalue => ?_
  exact (Lays.expect (by decide)).bind fun _ c₂ hend => .of_ok rfl fun _ =>
    hvalue.ofExpr.extend_right hend.le

theorem loopStart_rows : Rows tokens (fun t => t.toList.map .stmt) (loopStart .standard) := by
  intro c
  refine .congr (loopStart_run c) ?_
  split
  · next hk => exact (Lays.take (by simp [hk])).bind fun _ c₁ hsign => .of_ok rfl fun _ => hsign.le
  · next hk => exact (declaration_lays (by simp [hk])).map some fun _ _ h => h
  · exact expression_rows.some_map c

theorem forLoop_lays (hs : Rows tokens (fun t => [.stmt t]) s) (hk : c.kind ≠ .eof) :
    Lays tokens c (forLoop .standard s) fun hi t => Row tokens c.reach hi [.stmt t] := by
  refine (Lays.take hk).bind fun start c₁ hstart => (Lays.expect (by decide)).bind fun _ c₂ hopen => ?_
  refine (loopStart_rows c₂).bind fun first c₃ hfirst => ?_
  refine (Rows.unlessAt _ (expr_rows _) c₃).bind fun condition c₄ hcondition => ?_
  refine (Lays.expect (by decide)).bind fun _ c₅ hsign => ?_
  refine (Rows.unlessAt _ (expr_rows _) c₅).bind fun step c₆ hstep => ?_
  refine (Lays.expect (by decide)).bind fun _ c₇ hclose => (hs c₇).bind fun body c₈ hbody => ?_
  have hinner := (hcondition.extend_right hsign.le).append
    ((hstep.extend_right hclose.le).append hbody)
  exact .spanned hstart ((hfirst.extend_left hopen.le).append hinner) (fun _ => rfl) fun _ => rfl

/-- A jump, whichever it is. -/
theorem jump_lays {f : Span → Stmt} (hspan : ∀ span, (SourceNode.stmt (f span)).span = span)
    (hchildren : ∀ span, (SourceNode.stmt (f span)).children = []) (hk : c.kind ≠ .eof) :
    Lays tokens c (take >>= fun start => expect .semicolon >>= fun _ => spanFrom start >>= fun span =>
      pure (f span)) fun hi t => Row tokens c.reach hi [.stmt t] :=
  (Lays.take hk).bind fun _ _ hstart => (Lays.expect (by decide)).bind fun _ _ hend =>
    .spanned hstart (.nil hend.le) hspan hchildren

theorem printing_lays (hk : c.kind ≠ .eof) :
    Lays tokens c (printing .standard) fun hi t => Row tokens c.reach hi [.stmt t] := by
  refine (Lays.take hk).bind fun start c₁ hstart => (expr_rows _ c₁).bind fun value c₂ hvalue => ?_
  refine (Lays.expect (by decide)).bind fun _ c₃ hend => ?_
  exact .spanned hstart (hvalue.extend_right hend.le) (fun _ => rfl) fun _ => rfl

theorem stmtStep_rows (hs : Rows tokens (fun t => [.stmt t]) s) :
    Rows tokens (fun t => [.stmt t]) (stmtStep .standard s) := by
  intro c
  refine .congr (stmtStep_run s c) ?_
  cases hform : Grammar.standard.form? c.kind with
  | none => exact expression_rows c
  | some form =>
    have hk := kind_ne_eof_of_form hform
    cases form with
    | declaration => exact declaration_lays hk
    | branch => exact branch_lays hs hk
    | block => exact (block_rows hs c).bind fun _ _ hb => .of_ok rfl fun _ => hb
    | function => exact function_lays hs hk
    | returning => exact returning_lays hk
    | whileLoop => exact whileLoop_lays hs hk
    | forLoop => exact forLoop_lays hs hk
    | breaking => exact jump_lays (f := .breakLoop) (fun _ => rfl) (fun _ => rfl) hk
    | continuing => exact jump_lays (f := .continueLoop) (fun _ => rfl) (fun _ => rfl) hk
    | printing => exact printing_lays hk

theorem stmt_rows : Rows tokens (fun t => [.stmt t]) (stmt .standard) := by
  intro c
  generalize hn : c.remaining = n
  induction n using Nat.strongRecOn generalizing c with
  | ind n ih =>
    refine .congr (stmt_eq c) (stmtStep_rows (fun c' => ?_) c)
    by_cases hlt : c'.remaining < c.remaining
    · exact .congr (if_pos hlt) (ih _ (hn ▸ hlt) c' rfl)
    · exact .of_error (if_neg hlt)

end Statements

end Reading

end Numlet
