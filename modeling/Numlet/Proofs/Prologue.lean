import Numlet.Proofs.Code.Declared
import Numlet.Proofs.Code.Named
import Numlet.Proofs.StorageSummary
import Numlet.Proofs.Tree.Spelled

/-!
The declarations of a function in a module are its storage. The parameters come first, as they are declared,
and then the other locals in the order in which the code first names them, which is the order of their slots.
-/
namespace Numlet

open Node (named)

namespace Slots

variable {storage : Table NumType} {s : Slots}

/-- A local that has no slot gets one when it is named, and any other instruction changes nothing. -/
theorem map_fst_touch (i : Instr) : (s.touch storage i).entries.map (·.1) =
    s.entries.map (·.1) ++ i.local?.toList.filter (· ∉ s.entries.map (·.1)) := by
  have halloc : ∀ x, (s.alloc x ((storage.find? x).getD .i32)).2.entries.map (·.1) =
      s.entries.map (·.1) ++ [x].filter (· ∉ s.entries.map (·.1)) := by
    intro x
    unfold alloc
    by_cases hx : x ∈ s.entries.map (·.1)
    · have hsome : s.find? x ≠ none := fun hnone => findFrom_eq_none_iff.mp hnone hx
      obtain ⟨slot, hslot⟩ := Option.ne_none_iff_exists'.mp hsome
      rw [hslot, List.filter_cons_of_neg (by simpa using hx)]
      exact (List.append_nil _).symm
    · have hnone : s.find? x = none := findFrom_eq_none_iff.mpr hx
      rw [hnone, List.filter_cons_of_pos (by simpa using hx)]
      exact List.map_append
  cases i with
  | getLocal x | setLocal x => exact halloc x
  | const | numeric | eqz | convert | call | block | loop | ifThen | ifValue | orElse | finish | br | brIf
  | ret | drop | unreachable | verbatim => exact (List.append_nil _).symm

/-- Code gives slots to the locals that it names and that have none, in the order of their first lines. -/
theorem map_fst_foldl_touch (storage : Table NumType) (code : List Instr) (s : Slots) :
    (code.foldl (touch storage) s).entries.map (·.1) = s.entries.map (·.1) ++
      ((code.filterMap Instr.local?).filter (· ∉ s.entries.map (·.1))).eraseDups := by
  induction code generalizing s with
  | nil => exact (List.append_nil _).symm
  | cons i code ih =>
    rw [List.foldl_cons, ih, map_fst_touch]
    cases hi : i.local? with
    | none => rw [List.filterMap_cons_none hi, Option.toList_none, List.filter_nil, List.append_nil]
    | some x =>
      rw [List.filterMap_cons_some hi, Option.toList_some]
      by_cases hx : x ∈ s.entries.map (·.1)
      · rw [List.filter_cons_of_neg (by simpa using hx), List.filter_cons_of_neg (by simpa using hx),
          List.filter_nil, List.append_nil]
      · rw [List.filter_cons_of_pos (by simpa using hx), List.filter_cons_of_pos (by simpa using hx),
          List.filter_nil, List.eraseDups_cons, List.append_assoc, List.singleton_append,
          List.filter_filter]
        congr 3
        apply List.filter_congr
        intro y _
        rw [Bool.eq_iff_iff]
        simp only [Bool.and_eq_true, Bool.not_eq_true', beq_eq_false_iff_ne, decide_eq_true_eq,
          List.mem_append, List.mem_singleton, not_or, and_comm]

theorem findFrom_of_getElem? {x : String} {t : NumType} {k : Nat} {entries : List (String × NumType)}
    (h : (entries.map (·.1)).Nodup) (hk : entries[k]? = some (x, t)) (i : Nat) :
    findFrom x i entries = some ⟨i + k, t⟩ := by
  induction entries generalizing i k with
  | nil => simp at hk
  | cons e entries ih =>
    rw [List.map_cons, List.nodup_cons] at h
    rw [findFrom]
    cases k with
    | zero =>
      obtain rfl : e = (x, t) := by simpa using hk
      exact if_pos rfl
    | succ k =>
      rw [List.getElem?_cons_succ] at hk
      have hne : e.1 ≠ x := by
        rintro rfl
        exact h.1 (List.mem_map.mpr ⟨_, List.mem_of_getElem? hk, rfl⟩)
      rw [if_neg hne, ih h.2 hk (i + 1), Nat.add_right_comm, Nat.add_assoc]

theorem getElem?_of_findFrom {x : String} {slot : Slot} {i : Nat} {entries : List (String × NumType)}
    (h : findFrom x i entries = some slot) :
    ∃ k, slot.index = i + k ∧ entries[k]? = some (x, slot.type) := by
  induction entries generalizing i with
  | nil => cases h
  | cons e entries ih =>
    rw [findFrom] at h
    split at h
    · next heq =>
      cases h
      exact ⟨0, rfl, by rw [← heq]; rfl⟩
    · obtain ⟨k, hindex, hk⟩ := ih h
      exact ⟨k + 1, by omega, by rwa [List.getElem?_cons_succ]⟩

/-- The slot of a local is its place. -/
theorem find?_eq_some_iff (h : (s.entries.map (·.1)).Nodup) {x : String} {t : NumType} {k : Nat} :
    s.find? x = some ⟨k, t⟩ ↔ s.entries[k]? = some (x, t) := by
  constructor
  · intro hfind
    obtain ⟨j, hindex, hj⟩ := getElem?_of_findFrom hfind
    obtain rfl : k = j := by simpa using hindex
    exact hj
  · intro hk
    have hfind := findFrom_of_getElem? h hk 0
    rwa [Nat.zero_add] at hfind

end Slots

namespace Typed.Context

variable {c : Context}

theorem append_subset_append {xs ys xs' ys' : List String} (h : xs ⊆ ys) (h' : xs' ⊆ ys') :
    xs ++ xs' ⊆ ys ++ ys' :=
  List.append_subset.mpr
    ⟨List.subset_append_of_subset_left _ h, List.subset_append_of_subset_right _ h'⟩

mutual

/-- The code of a sound expression names what the expression stores into. -/
theorem stores_subset_named (e : Expr) (hs : c.Sound e) :
    e.stores.map (·.1) ⊆ named (c.exprNodes e) := by
  match e with
  | .literal value t span | .var x t span | .update op x t span => simp [Expr.stores]
  | .binary op left right operandType t span =>
    obtain ⟨hl, hr, -⟩ := hs.binary
    have hboth : (Expr.stores (.binary op left right operandType t span)).map (·.1) ⊆
        named (c.exprNodes left) ++ named (c.exprNodes right) := by
      rw [Expr.stores, List.map_append]
      exact append_subset_append (stores_subset_named left hl) (stores_subset_named right hr)
    rw [exprNodes]
    split
    · simpa [named_conditionNodes, named_truthNodes, Instr.local?] using hboth
    · split
      · simpa [named_conditionNodes, named_truthNodes, Instr.local?] using hboth
      · simpa [named_coerceNodes, named_numericNodes] using hboth
  | .unary op operand t span =>
    rw [exprNodes, Node.named_append, named_unaryNodes, List.append_nil]
    exact stores_subset_named operand hs.unary.1
  | .assign x value t span =>
    rw [exprNodes, Node.named_append, Node.named_append, named_storeNodes, Expr.stores, List.map_append]
    apply List.subset_append_of_subset_left
    exact append_subset_append (stores_subset_named value hs.assign.1) (List.Subset.refl _)
  | .convert operand source target t span =>
    rw [exprNodes, Node.named_append, named_coerceNodes, List.append_nil]
    exact stores_subset_named operand hs.convert.1
  | .call callee arguments parameterTypes callSpan t span =>
    obtain ⟨harguments, -, hfits⟩ := hs.call
    rw [exprNodes, Node.named_append, named_callNodes, List.append_nil]
    exact storesOfExprs_subset_named arguments parameterTypes harguments hfits

theorem storesOfExprs_subset_named (es : List Expr) (ts : List NumType)
    (hs : ∀ x ∈ partsOfExprs es, c.ExprOk x) (hfits : Fits es ts) :
    (storesOfExprs es).map (·.1) ⊆ named (c.argumentNodes es ts) := by
  match es, ts with
  | [], ts => simp [storesOfExprs]
  | e :: es, [] => cases hfits
  | e :: es, t :: ts =>
    simp only [partsOfExprs, List.forall_mem_append] at hs
    obtain - | ⟨-, hrest⟩ := hfits
    rw [argumentNodes, Node.named_append, Node.named_append, named_coerceNodes, List.append_nil,
      storesOfExprs, List.map_append]
    exact append_subset_append (stores_subset_named e hs.1) (storesOfExprs_subset_named es ts hs.2 hrest)

end

/-- What a statement computes and stores. -/
theorem stored_subset_named {x : String} {value : Expr} (hs : c.Sound value) :
    value.stores.map (·.1) ++ [x] ⊆ named (c.exprNodes value ++ c.storeNodes x value.type) := by
  rw [Node.named_append, named_storeNodes]
  exact append_subset_append (stores_subset_named value hs) (List.Subset.refl _)

mutual

/-- The code of a sound statement names what the statement stores into. -/
theorem stmtStores_subset_named (st : Stmt) {inLoop : Bool} (hs : c.SoundStmt inLoop st)
    (inner next : Nat) : st.stores.map (·.1) ⊆ named (c.stmtNodes inner next st) := by
  match st with
  | .declare x value t span =>
    rw [stmtNodes, Stmt.stores, List.map_append]
    cases value with
    | none =>
      rw [declareNodes, Node.named_append, named_storeNodes]
      exact List.subset_append_right _ _
    | some value => exact stored_subset_named hs.exprs
  | .assign x value span =>
    rw [stmtNodes, Stmt.stores, List.map_append]
    exact stored_subset_named hs.exprs
  | .branch condition yes no span =>
    obtain ⟨hcondition, hyes, hno⟩ := hs.branch
    rw [stmtNodes, Stmt.stores, Node.named_append, Node.named_append, named_conditionNodes, List.append_nil,
      Node.named_cond, ← List.append_assoc, List.map_append, List.map_append]
    refine append_subset_append (append_subset_append ?_ ?_) ?_
    · exact stores_subset_named condition hcondition
    · exact stmtStores_subset_named yes hyes inner next
    · exact elseStores_subset_named no hno inner _
  | .loop start condition body step span =>
    obtain ⟨hstart, hcondition, hbody, hstep⟩ := hs.loop
    have htest : ∀ label, (storesOfExpr? condition).map (·.1) ⊆ named (c.testNodes label condition) := by
      intro label
      cases condition with
      | none => exact List.nil_subset _
      | some e =>
        rw [testNodes, Node.named_append, Node.named_append]
        exact List.subset_append_of_subset_left _
          (List.subset_append_of_subset_left _ (stores_subset_named e hcondition))
    have hall := append_subset_append (stmtStores?_subset_named start hstart inner next)
      (append_subset_append (append_subset_append (htest (next + loopCount? start))
        (stmtStores_subset_named body hbody (next + loopCount? start) (next + loopCount? start + 1)))
        (stmtStores?_subset_named step hstep inner (next + loopCount? start + 1 + body.loopCount)))
    rw [stmtNodes, Stmt.stores]
    simp only [Node.named_append, Node.named_block, Node.named_loop, Node.named_plain, Instr.local?,
      Node.named_nil, Option.toList_none, List.append_nil, List.map_append]
    simpa only [List.append_assoc] using hall
  | .breakLoop span | .continueLoop span => exact List.nil_subset _
  | .returnValue value span =>
    rw [stmtNodes, Stmt.stores]
    cases value with
    | none => exact List.nil_subset _
    | some value =>
      rw [returnNodes, Node.named_append, Node.named_append]
      exact List.subset_append_of_subset_left _
        (List.subset_append_of_subset_left _ (stores_subset_named value hs.exprs))
  | .print value span =>
    rw [stmtNodes, Stmt.stores, Node.named_append]
    exact List.subset_append_of_subset_left _ (stores_subset_named value hs.exprs)
  | .block body span =>
    rw [stmtNodes, Stmt.stores]
    exact stmtsStores_subset_named body hs.block inner next
  | .expression value =>
    rw [stmtNodes, Stmt.stores, Node.named_append]
    exact List.subset_append_of_subset_left _ (stores_subset_named value hs.exprs)
  | .call callee es ts span =>
    rw [stmtNodes, Stmt.stores, Node.named_append, Node.named_append]
    exact List.subset_append_of_subset_left _
      (List.subset_append_of_subset_left _ (storesOfExprs_subset_named es ts hs.exprs hs.self.2))

theorem stmtStores?_subset_named (st : Option Stmt) {inLoop : Bool} (hs : c.SoundStmt? inLoop st)
    (inner next : Nat) : (storesOfStmt? st).map (·.1) ⊆ named (c.stmtNodes? inner next st) := by
  match st with
  | none => exact List.nil_subset _
  | some st =>
    rw [stmtNodes?, storesOfStmt?]
    exact stmtStores_subset_named st hs.some inner next

theorem elseStores_subset_named (st : Option Stmt) {inLoop : Bool} (hs : c.SoundStmt? inLoop st)
    (inner next : Nat) :
    (storesOfStmt? st).map (·.1) ⊆ named ((c.elseNodes inner next st).getD []) := by
  match st with
  | none => exact List.nil_subset _
  | some st =>
    rw [elseNodes, storesOfStmt?]
    split
    · next hempty =>
      -- A block that is left out stores nothing.
      unfold Stmt.isEmptyBlock at hempty
      split at hempty
      · exact List.nil_subset _
      · cases hempty
    · exact stmtStores_subset_named st hs.some inner next

theorem stmtsStores_subset_named (sts : List Stmt) {inLoop : Bool} (hs : c.SoundStmts inLoop sts)
    (inner next : Nat) : (storesOfStmts sts).map (·.1) ⊆ named (c.stmtsNodes inner next sts) := by
  match sts with
  | [] => exact List.nil_subset _
  | st :: sts =>
    obtain ⟨hfirst, hrest⟩ := hs.cons
    rw [stmtsNodes, storesOfStmts, Node.named_append, List.map_append]
    exact append_subset_append (stmtStores_subset_named st hfirst inner next)
      (stmtsStores_subset_named sts hrest inner _)

end

end Typed.Context

namespace Lowering

/-- A function that is lowered becomes its form, and its slots are left. -/
theorem lowerFunction_form {f : Typed.Function} {s s' : Emitter} (h : f.Lowerable s.program)
    {exportName : Option String} {form : FunctionForm} (hrun : lowerFunction f exportName s = .ok form s') :
    form = f.form s.program exportName ∧ s'.slots = f.slots s.program := by
  have hbody := lowerBody_run (s := { s with log := s.log.push (.lowering f.name) }) h
  obtain ⟨_, s₁, hreport, hrest⟩ := bind_eq_ok.mp hrun
  cases hreport
  obtain ⟨code, s₂, hcode, hend⟩ := bind_eq_ok.mp hrest
  cases hr : Coercion.firstRefusal (f.coercions s.program) with
  | some d =>
    rw [hr] at hbody
    obtain ⟨s₃, hfail⟩ := hbody
    cases hcode.symm.trans hfail
  | none =>
    rw [hr] at hbody
    obtain ⟨s₃, hdone, -, hslots, -⟩ := hbody
    cases hcode.symm.trans hdone
    cases hend
    refine ⟨?_, hslots⟩
    unfold Typed.Function.form
    rw [← hslots]

end Lowering

section Program

variable {p : Program} {options : Options} {typed : Typed.Program} {z : Checker} {f : Typed.Function}

theorem Table.nodup_slots_stored {t : Table NumType} (stores : List (String × NumType))
    (h : t.slots.Nodup) : (t.stored stores).slots.Nodup := by
  induction stores generalizing t with
  | nil => exact h
  | cons store stores ih => exact ih (nodup_slots_insert h)

theorem Table.mem_entries_iff {t : Table NumType} (h : t.slots.Nodup) {x : String} {type : NumType} :
    (x, type) ∈ t.entries ↔ t.find? x = some type :=
  ⟨find?_of_mem h, mem_of_find?⟩

/-- The locals of a form are those that its code names and that are no parameters. -/
theorem Typed.Function.map_locals_form (f : Function) (typed : Program) (exportName : Option String) :
    (f.form typed exportName).locals.map (·.1) = (((f.code typed).filterMap Instr.local?).filter
      (· ∉ f.parameters.map (·.name))).eraseDups := by
  have hnames := Slots.map_fst_foldl_touch f.storage (f.code typed) (.ofParameters f.parameters)
  have hparameters : (Slots.ofParameters f.parameters).entries.map (·.1) = f.parameters.map (·.name) := by
    rw [Slots.ofParameters, List.map_map]
    rfl
  have hcount : (f.slots typed).parameterCount = (f.parameters.map (·.name)).length := by
    rw [(f.after_slots typed).count, List.length_map]
    rfl
  change ((f.slots typed).locals.map fun l => (l.1, l.2.type)).map (·.1) = _
  rw [Slots.map_locals, List.map_drop, hcount, slots, hnames, hparameters]
  exact List.drop_left

/-- The locals with a slot are those with storage. -/
theorem ProgramRun.mem_map_slots_iff (h : ProgramRun p options typed z) (hf : f ∈ typed.bodies)
    {x : String} :
    x ∈ (f.slots typed).entries.map (·.1) ↔ (f.storage.find? x).isSome = true := by
  obtain ⟨body, hsource⟩ := h.source f hf
  have hafter := f.after_slots typed
  obtain ⟨new, hentries, hnew⟩ := hafter.entries
  have hcode : ∀ y, y ∈ named (f.nodes typed) ↔ ∃ i ∈ f.code typed, i.local? = some y :=
    fun y => List.mem_filterMap
  have hstored : (f.storage.find? x).isSome = true ↔ x ∈ f.stores.map (·.1) := by
    rw [hsource.stored]
    exact Table.isSome_find?_stored
  constructor
  · intro hx
    rw [hentries, List.map_append, List.mem_append] at hx
    obtain hx | hx := hx
    · rw [hstored, Typed.Function.stores, List.map_append]
      exact List.mem_append_left _ hx
    · obtain ⟨e, he, rfl⟩ := List.mem_map.mp hx
      exact Option.isSome_iff_exists.mpr
        (Typed.Function.storage_of_named (h.sound f hf) ((hcode e.1).mpr (hnew e he).2))
  · intro hx
    rw [hstored, Typed.Function.stores, List.map_append, List.mem_append] at hx
    obtain hx | hx := hx
    · rw [hentries, List.map_append]
      exact List.mem_append_left _ hx
    · have hbody : x ∈ named (f.nodes typed) := by
        rw [Typed.Function.nodes, Node.named_append]
        exact List.mem_append_left _
          (Typed.Context.stmtsStores_subset_named f.body (h.sound f hf) 0 0 hx)
      obtain ⟨i, hi, hlocal⟩ := (hcode x).mp hbody
      exact hafter.named i hi x hlocal

/-- The slots of a function are its storage. -/
theorem ProgramRun.mem_slots_iff (h : ProgramRun p options typed z) (hspelled : p.Spelled)
    (hf : f ∈ typed.bodies) {x : String} {t : NumType} :
    (x, t) ∈ (f.slots typed).entries ↔ f.storage.find? x = some t := by
  obtain ⟨body, hsource⟩ := h.source f hf
  constructor
  · intro hx
    have hsome := (h.mem_map_slots_iff hf).mp (List.mem_map_of_mem hx)
    obtain ⟨u, hu⟩ := Option.isSome_iff_exists.mp hsome
    rw [hu, ← h.slotType_eq hspelled hf hu, Typed.Function.slotType_of_mem hsource.parameters hx]
  · intro hx
    obtain ⟨⟨y, u⟩, hmem, rfl⟩ := List.mem_map.mp ((h.mem_map_slots_iff hf).mpr (by rw [hx]; rfl))
    rwa [← h.slotType_eq hspelled hf hx, Typed.Function.slotType_of_mem hsource.parameters hmem]

/-- The declarations of a function that is lowered, parameters and locals, are its storage and are written
apart. The parameters come first and are those of the function. The locals follow in the order in which the
code first names them, and a declaration stands at the index of its slot. -/
theorem declarations_are_storage (hspelled : p.Spelled) (h : p.check options = .ok typed z)
    (hf : f ∈ typed.bodies) {exportName : Option String} {s s' : Emitter} (hs : s.program = typed)
    {form : FunctionForm} (hrun : Lowering.lowerFunction f exportName s = .ok form s') :
    form.parameters = f.parameters ∧ form.declared.Perm f.storage.entries ∧
      (∀ x t, (x, t) ∈ form.declared ↔ f.storage.find? x = some t) ∧
      (form.declared.map fun l => signed l.1).Nodup ∧
      form.locals.map (·.1) = ((form.body.filterMap Instr.local?).filter
        (· ∉ f.parameters.map (·.name))).eraseDups ∧
      ∀ k x t, form.declared[k]? = some (x, t) ↔ s'.slots.find? x = some ⟨k, t⟩ := by
  have hchecked := ProgramRun.of_check h
  obtain ⟨body, hsource⟩ := hchecked.source f hf
  subst hs
  obtain ⟨rfl, hslots⟩ := Lowering.lowerFunction_form (hchecked.lowerable f hf) hrun
  have hnodup := Typed.Function.nodup_slots hsource.parameters s.program
  have hmem := fun x t => hchecked.mem_slots_iff hspelled hf (x := x) (t := t)
  rw [Typed.Function.declared_form, hslots]
  refine ⟨rfl, ?_, hmem, ?_, ?_, ?_⟩
  · have hstorage : f.storage.slots.Nodup := by
      rw [hsource.stored]
      exact Table.nodup_slots_stored f.stores List.nodup_nil
    refine (List.perm_ext_iff_of_nodup hnodup.of_map hstorage.of_map).mpr fun (x, t) => ?_
    rw [hmem, Table.mem_entries_iff hstorage]
  · have hbare : ∀ y ∈ (f.slots s.program).entries.map (·.1), bareName y = y := by
      intro y hy
      obtain ⟨⟨x, t⟩, hx, rfl⟩ := List.mem_map.mp hy
      exact hchecked.bareName_slot hspelled hf ((hmem x t).mp hx)
    have hsigned := hnodup.map_on fun x hx y hy heq => (signed_inj (hbare x hx) (hbare y hy)).mp heq
    rwa [List.map_map] at hsigned
  · exact f.map_locals_form s.program exportName
  · exact fun k x t => (Slots.find?_eq_some_iff hnodup).symm

end Program

/-- Whether the only function of a program is lowered with these declarations, of which the first is its
parameter. -/
def Program.declares (p : Program) (declared : List (String × NumType)) : Bool :=
  match p.check {} with
  | .error _ _ => false
  | .ok typed _ =>
    match typed.functions with
    | [f] =>
      match Lowering.lowerFunction f none { program := typed } with
      | .error _ _ => false
      | .ok form _ => decide (form.declared = declared ∧ form.locals.map (·.1) = declared.tail.map (·.1))
    | _ => false

/-- The step of the loop stands before its body in the source and after it in the code. -/
theorem declarations_are_storage_in_loop :
    ∃ p typed z f form s', Program.ofSource ("fn f(n: i64) \x7b let y = 2.5; " ++
        "for (let y = 0; y < 3; z = y) \x7b x = n; y++; \x7d \x7d") "" = .ok p ∧ p.Spelled ∧
      p.check {} = .ok typed z ∧ f ∈ typed.bodies ∧
      Lowering.lowerFunction f none { program := typed } = .ok form s' ∧
      form.declared = [("n", .i64), ("y", .f32), ("y.1", .i32), ("x", .i64), ("z", .i32)] ∧
      form.declared.Perm f.storage.entries ∧
      ((form.body.filterMap Instr.local?).filter (· ∉ f.parameters.map (·.name))).eraseDups =
        ["y", "y.1", "x", "z"] ∧
      s'.slots.find? "x" = some ⟨3, .i64⟩ := by
  obtain ⟨p, hp, hruns⟩ := exists_ok_of_decide
    (P := fun p : Program =>
      p.declares [("n", .i64), ("y", .f32), ("y.1", .i32), ("x", .i64), ("z", .i32)] = true)
    (x := Program.ofSource ("fn f(n: i64) \x7b let y = 2.5; " ++
      "for (let y = 0; y < 3; z = y) \x7b x = n; y++; \x7d \x7d") "") (by decide +kernel)
  have hspelled := (Program.readable_of_source hp).names
  unfold Program.declares at hruns
  split at hruns
  · cases hruns
  · next typed z hcheck =>
    split at hruns
    · next f hfunctions =>
      split at hruns
      · cases hruns
      · next form s' hrun =>
        obtain ⟨hdeclared, hlocals⟩ := of_decide_eq_true hruns
        have hf : f ∈ typed.bodies := by
          rw [Typed.Program.bodies, hfunctions]
          exact List.mem_append_left _ List.mem_cons_self
        obtain ⟨-, hperm, -, -, horder, hslots⟩ := declarations_are_storage hspelled hcheck hf rfl hrun
        refine ⟨p, typed, z, f, form, s', hp, hspelled, hcheck, hf, hrun, hdeclared, hperm, ?_, ?_⟩
        · exact horder.symm.trans hlocals
        · refine (hslots 3 "x" .i64).mp ?_
          rw [hdeclared]
          rfl
    · cases hruns

end Numlet
