import ThreeAddress.Proofs.Cells.Rules
import ThreeAddress.Proofs.Traversal.Between

/-!
# Visits with cells

Visiting a method with cells agrees with visiting it without: the same tasks, edges and depths, and states that books relate. So it comes to
its end or fails alike, and whatever state it comes to between two instructions has its counterpart.
-/

namespace ThreeAddress

open Lowering (labelIndex checkDepth checkEffect exits undefinedLabel?)

variable {m : Method} {test : EdgeTest} {L : Ledger} {a : CellState} {s : State} {i : Nat} {l : Label}

/-! ## The outset -/

/-- Nothing was visited, and there is no cell. -/
theorem Books.ofMethod (m : Method) : Books m ⟨[], 0⟩ (.ofMethod m) (.ofMethod m) where
  registers := rfl
  stack := rfl
  sizes := ⟨rfl, rfl⟩
  insn _ := rfl
  register _ := rfl
  value _ := rfl
  frames := by simp [CellState.ofMethod, State.ofMethod]
  frame i := by
    simp only [CellState.frame, CellState.ofMethod, State.frame, State.ofMethod, Array.getElem?_replicate]
    split <;> rfl
  inputs i row hr := by
    rw [(State.Blank.ofMethod m).frame] at hr
    cases hr
  units := by simp [CellState.ofMethod, State.ofMethod]
  unit i := by
    simp only [CellState.unit, CellState.ofMethod, State.unit, State.ofMethod, Array.getElem?_replicate]
    split <;> exact .nil
  entries := .nil
  earlier _ _ hq := by cases hq
  insideCode _ hk := absurd hk (Nat.not_lt_zero _)
  atEntry _ _ _ := rfl
  entryLabel _ _ he := by cases he
  stackKnown _ ho := by cases ho
  rowsKnown i row hr := by
    rw [(State.Blank.ofMethod m).frame] at hr
    cases hr
  outKnown i o ho := by
    rw [(State.Blank.ofMethod m).frame] at ho
    cases ho
  holds :=
    { size := rfl
      uses := fun _ _ => iff_of_false List.not_mem_nil nofun
      used := nofun
      values := nofun
      fixed := nofun
      known := nofun
      below := nofun
      defines := nofun
      defined := fun _ _ hr => by cases hr }

namespace Cells

/-- A handler gets an entry alike, while nothing was visited. -/
theorem agrees_addHandlerEntry (h : Books m L a s) (blank : s.Blank m) (l : Label) :
    Agrees m L a s (addHandlerEntry m l) (Lowering.addHandlerEntry m l) Anything := by
  unfold addHandlerEntry Lowering.addHandlerEntry
  cases hi : labelIndex m l with
  | error f => exact agrees_fail
  | ok i =>
    have here := Method.here_of_labelIndex? (Lowering.labelIndex_eq_ok.mp hi)
    have entry : (a.handlerEntry? i).isNone = (s.handlerEntry? i).isNone := by rw [← h.handlerEntry? i, Option.isNone_map]
    refine agrees_get_bind (agrees_ite (by rw [entry]; rfl) (fun hneeds => ?_) fun _ => agrees_pure h trivial)
    have hnone := Option.isNone_iff_eq_none.mp (Bool.and_eq_true_iff.mp hneeds).1
    refine agrees_bind_yields (agrees_freshRegister h) fun r L₁ a₁ s₁ hy _ h₁ _ => ?_
    obtain ⟨-, rfl⟩ := Lowering.yields_freshRegister.mp hy
    have bound : ∀ o, L₁.Known o → (s.operand o).register ≠ none := fun o ho hn => by
      obtain ⟨-, ⟨q, hq, -⟩, -⟩ := blank.made o (h₁.toTracks.known.mpr ho)
      rw [hn] at hq
      cases hq
    have hb := h₁.withEntry blank.unit bound here hnone r
    exact ⟨rfl, _, (Ledger.Grows.addOperand L₁).trans (.add _ _), hb, trivial⟩

theorem agrees_addHandlerEntries :
    Agrees m ⟨[], 0⟩ (.ofMethod m) (.ofMethod m) (addHandlerEntries m) (Lowering.addHandlerEntries m) Anything := by
  have all : ∀ {ls : List Label} {L a s}, Books m L a s → s.Blank m → (∀ l ∈ ls, l ∈ m.handlerLabels) →
      Agrees m L a s (ls.mapM (addHandlerEntry m)) (ls.mapM (Lowering.addHandlerEntry m)) Anything := by
    intro ls
    induction ls with
    | nil => exact fun h _ _ => agrees_pure h trivial
    | cons l ls ih =>
      intro L a s h blank hls
      rw [List.mapM_cons, List.mapM_cons]
      refine agrees_bind_yields (agrees_addHandlerEntry h blank l) fun k L₁ a₁ s₁ hy _ h₁ _ => ?_
      have blank₁ := Lowering.addHandlerEntry_spec hy (hls l List.mem_cons_self) blank
      refine agrees_bind (ih h₁ blank₁ fun l' hl' => hls l' (List.mem_cons_of_mem l hl')) fun ks L₂ a₂ s₂ _ h₂ _ => ?_
      exact agrees_pure h₂ trivial
  refine agrees_bind (all (.ofMethod m) (.ofMethod m) fun _ hl => hl) fun ks L a s _ h _ => agrees_pure h trivial

end Cells

/-! ## What a visit sees of a state -/

namespace Books

theorem loweringStack (h : Books m L a s) : LoweringState.stack a = LoweringState.stack s :=
  h.stack

theorem loweringEntryStack (h : Books m L a s) (i : Nat) : LoweringState.entryStack a i = LoweringState.entryStack s i := by
  have hentry : (a.handlerEntry? i).map (fun e => Word.operand e.operand) = (s.handlerEntry? i).map fun e => Word.operand e.operand := by
    rw [← h.handlerEntry? i, Option.map_map]
    rfl
  exact congrArg Option.toList hentry

theorem loweringEquivalentStacks (h : Books m L a s) (x y : Stack) :
    LoweringState.equivalentStacks a x y = LoweringState.equivalentStacks s x y :=
  h.equivalentStacks x y

end Books

/-! ## Traversals -/

/-- The tasks, edges and depths are the same, and books relate the states. -/
structure Traversal.Follows (m : Method) (L : Ledger) (t : Traversal CellState) (u : Traversal State) : Prop where
  books : Books m L t.state u.state
  depths : t.depths = u.depths
  edges : t.edges = u.edges
  tasks : t.tasks = u.tasks
  known : ∀ task ∈ u.tasks, ∀ o, .operand o ∈ task.stack → L.Known o

namespace Traversal

open Cells Lowering

variable {t : Traversal CellState} {u : Traversal State}

/-- The task of a handler is the same. -/
theorem handlerTask_eq (h : Books m L a s) (l : Label) : handlerTask m a l = handlerTask m s l := by
  simp only [handlerTask, h.loweringEntryStack]

/-- A walk comes to its end alike. -/
theorem agrees_walk (h : Books m L a s) {ops : List Operation} (here : m.code.drop i = ops) (depths : Array (Option Nat)) :
    Accord (fun x y => ∃ L', L.Grows L' ∧ Books m L' x.state y.state ∧ x.depths = y.depths ∧ x.origin = y.origin ∧ x.targets = y.targets)
      (walk m i ops a depths) (walk m i ops s depths) := by
  induction ops generalizing L a s i depths with
  | nil => exact ⟨L, .refl L, h, rfl, rfl, rfl⟩
  | cons op ops ih =>
    obtain ⟨hop, hrest⟩ := Method.here_of_drop here
    unfold walk
    dsimp only
    rw [h.loweringStack]
    refine Accord.bind_same fun depths' _ => Accord.bind (agrees_lowerOperation h hop) ?_
    rintro ⟨_, a'⟩ ⟨_, s'⟩ ⟨-, L', hg, h', -⟩
    dsimp only
    rw [h'.loweringStack]
    refine Accord.bind_same fun _ _ => Accord.bind_same fun targets _ => ?_
    cases targets with
    | none =>
      refine Accord.mono (ih h' hrest depths') ?_
      rintro _ _ ⟨L'', hg', hsame⟩
      exact ⟨L'', hg.trans hg', hsame⟩
    | some targets => exact ⟨L', hg, h', rfl, rfl, rfl⟩

/-- The verdict on a stack is the same. -/
theorem verdict_eq (h : Books m L a s) (test : EdgeTest) (e : Edge) (stack : Stack) : test.verdict a e stack = test.verdict s e stack := by
  unfold EdgeTest.verdict
  cases test with
  | historyOnly => rfl
  | pendingFirst =>
    cases e.pending with
    | none => rfl
    | some p => simp only [h.loweringEquivalentStacks]

/-- What is sent along an edge is the same. -/
theorem agrees_offer (h : t.Follows m L u) (test : EdgeTest) (key : Nat × Nat) :
    Accord (Follows m L) (t.offer test key) (u.offer test key) := by
  have sent : (t.send key (LoweringState.stack u.state)).Follows m L (u.send key (LoweringState.stack u.state)) := by
    refine ⟨h.books, h.depths, ?_, ?_, fun task htask o ho => ?_⟩
    · simp only [send, h.edges]
    · simp only [send, h.tasks]
    · rcases List.mem_cons.mp htask with rfl | hold
      · exact h.books.stackKnown o ho
      · exact h.known task hold o ho
  unfold offer
  simp only [h.edges, h.books.loweringStack, verdict_eq h.books]
  cases u.edges[key]? with
  | none => exact sent
  | some e =>
    dsimp only
    cases test.verdict u.state e (LoweringState.stack u.state) with
    | send => exact sent
    | skip => exact h
    | conflict => rfl

/-- An edge is reached alike. -/
theorem follows_arrive (h : t.Follows m L u) (edge : Option (Nat × Nat)) : (t.arrive edge).Follows m L (u.arrive edge) := by
  cases edge with
  | none => exact h
  | some key => exact { h with edges := by simp only [arrive, h.edges] }

/-- Following a task keeps the traversals together. -/
theorem agrees_follow (h : t.Follows m L u) (test : EdgeTest) {task : Task} (known : ∀ o, .operand o ∈ task.stack → L.Known o) :
    Accord (fun t u => ∃ L', L.Grows L' ∧ t.Follows m L' u) (t.follow test m task) (u.follow test m task) := by
  have arrived := follows_arrive h task.edge
  unfold follow
  generalize t.arrive task.edge = t' at arrived
  generalize u.arrive task.edge = u' at arrived
  obtain ⟨a, depths, edges, tasks⟩ := t'
  obtain ⟨s, _, _, _⟩ := u'
  obtain ⟨books, rfl, rfl, rfl, old⟩ := arrived
  refine Accord.bind (agrees_walk (books.withStack known) rfl _) fun x y ⟨L', hg, hb, hdepths, horigin, htargets⟩ => ?_
  rw [hdepths, horigin, htargets]
  have begun : Follows m L' ⟨x.state, y.depths, edges, tasks⟩ ⟨y.state, y.depths, edges, tasks⟩ :=
    ⟨hb, rfl, rfl, rfl, fun task htask o ho => hg.known (old task htask o ho)⟩
  exact Accord.mono (Accord.foldlM (fun _ _ target _ h' => agrees_offer h' test (y.origin, target)) begun) fun _ _ h' => ⟨L', hg, h'⟩

/-- The exception that the task of a handler finds on the stack exists. -/
theorem known_of_handlerTask (h : Books m L a s) {task : Task} (ht : handlerTask m s l = .ok task) {o : OperandId}
    (ho : .operand o ∈ task.stack) : L.Known o := by
  simp only [handlerTask, bind_eq_ok, pure_eq_ok] at ht
  obtain ⟨i, -, rfl⟩ := ht
  simp only [LoweringState.entryStack, Option.mem_toList, Option.map_eq_some_iff] at ho
  obtain ⟨e, he, heq⟩ := ho
  obtain rfl := Word.operand.inj heq
  rw [← h.handlerEntry? i, Option.map_eq_some_iff] at he
  obtain ⟨e', he', rfl⟩ := he
  exact h.holds.known _ _ _ (h.toTracks.owner?_target he') rfl

/-- Visiting begins alike. -/
theorem agrees_start (m : Method) : Accord (fun (t : Traversal CellState) (u : Traversal State) => ∃ L, t.Follows m L u) (start m) (start m) := by
  unfold start
  cases undefinedLabel? m with
  | some l => rfl
  | none =>
    dsimp only
    split
    · exact ⟨_, .ofMethod m, rfl, rfl, rfl, nofun⟩
    · refine Accord.bind agrees_addHandlerEntries ?_
      rintro ⟨_, a⟩ ⟨_, s⟩ ⟨-, L, -, h, -⟩
      dsimp only
      rw [funext (handlerTask_eq h)]
      refine Accord.bind_same fun handlers hh => ⟨L, h, rfl, rfl, rfl, fun task htask o ho => ?_⟩
      rcases List.mem_cons.mp htask with rfl | htask
      · cases ho
      · obtain ⟨l, -, hl⟩ := exists_of_forall₂ (mapM_eq_ok.mp hh) (List.mem_reverse.mp htask)
        exact known_of_handlerTask h hl ho

/-- The next task of two traversals that go together. -/
theorem follows_rest (h : t.Follows m L u) {task : Task} {rest : List Task} (next : u.tasks = task :: rest) :
    Follows m L { t with tasks := rest } { u with tasks := rest } ∧ ∀ o, .operand o ∈ task.stack → L.Known o := by
  have known := h.known
  rw [next] at known
  have later : ∀ task' ∈ rest, ∀ o, .operand o ∈ task'.stack → L.Known o := fun task' ht => known task' (List.mem_cons_of_mem task ht)
  exact ⟨{ h with tasks := rfl, known := later }, known task List.mem_cons_self⟩

/-- Tasks are followed alike until none is left. -/
theorem agrees_run (h : t.Follows m L u) (test : EdgeTest) (fuel : Nat) :
    Accord (fun t u => ∃ L, t.Follows m L u) (t.run test m fuel) (u.run test m fuel) := by
  induction fuel generalizing L t u with
  | zero => rfl
  | succ fuel ih =>
    unfold run
    rw [h.tasks]
    cases hu : u.tasks with
    | nil => exact ⟨L, h⟩
    | cons task rest =>
      obtain ⟨hrest, known⟩ := follows_rest h hu
      refine Accord.bind (agrees_follow hrest test known) ?_
      rintro _ _ ⟨_, _, h'⟩
      exact ih h'

/-- Visiting a method with cells comes to its end, or fails, exactly as it does without. -/
theorem agrees_complete (test : EdgeTest) (m : Method) :
    Accord (fun (t : Traversal CellState) (u : Traversal State) => ∃ L, t.Follows m L u) (complete test m) (complete test m) :=
  Accord.bind (agrees_start m) fun _ _ ⟨_, h⟩ => agrees_run h test _

/-! ## Where a visit comes to -/

variable {n : Nat} {depths : Array (Option Nat)}

/-- Wherever a visit with cells comes to, one without comes to too. -/
theorem After.follows (h : After test m n t) : ∃ L u, After test m n u ∧ t.Follows m L u := by
  induction h with
  | start started =>
    obtain ⟨u, hu, L, h⟩ := Accord.exists_ok (agrees_start m) started
    exact ⟨L, u, .start hu, h⟩
  | follow _ next followed ih =>
    obtain ⟨L, u, hu, h⟩ := ih
    have next' := h.tasks.symm.trans next
    obtain ⟨hrest, known⟩ := follows_rest h next'
    obtain ⟨u', hu', L', -, h'⟩ := Accord.exists_ok (agrees_follow hrest test known) followed
    exact ⟨L', u', .follow hu next' hu', h'⟩

/-- Every state that a visit with cells comes to between two instructions is related to one without. -/
theorem Before.books (h : Before test m i a depths) : ∃ L s, Before test m i s depths ∧ Books m L a s := by
  induction h with
  | task after next =>
    obtain ⟨L, u, hu, h⟩ := after.follows
    have next' := h.tasks.symm.trans next
    rw [h.depths]
    exact ⟨L, _, .task hu next', h.books.withStack (follows_rest h next').2⟩
  | straight _ here depth lowered effect exits ih =>
    obtain ⟨L, s, hs, h⟩ := ih
    obtain ⟨⟨_, s'⟩, hs', rfl, L', -, h', -⟩ := Accord.exists_ok (agrees_lowerOperation h here) lowered
    rw [h.loweringStack] at depth effect
    rw [h'.loweringStack] at effect
    exact ⟨L', s', .straight hs here depth hs' effect exits, h'⟩

/-- Every state between two instructions has its counterpart in a visit without cells. -/
theorem Between.books (h : Between test m a) : ∃ L s, Books m L a s ∧ Between test m s := by
  cases h with
  | tasks after =>
    obtain ⟨L, u, hu, h⟩ := after.follows
    exact ⟨L, u.state, h.books, .tasks hu⟩
  | before before =>
    obtain ⟨L, s, hs, h⟩ := before.books
    exact ⟨L, s, h, .before hs⟩
  | behind before here lowered =>
    obtain ⟨L, s, hs, h⟩ := before.books
    obtain ⟨⟨_, s'⟩, hs', rfl, L', -, h', -⟩ := Accord.exists_ok (agrees_lowerOperation h here) lowered
    exact ⟨L', s', h', .behind hs here hs'⟩

end Traversal
end ThreeAddress
