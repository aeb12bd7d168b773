import ThreeAddress.Proofs.Traversal.Bounds

/-!
# Termination

Visiting a method ends: it never takes more tasks than `Method.taskBound`, a larger bound makes no difference, and the bound depends on
the sizes of the code and of the exception table alone. Looking into operands ends as well, in every state of lowering.
-/

namespace ThreeAddress

open State

/-! ## Looking into operands -/

namespace State

/-- An operand stands for an expression over another operand. -/
def Inside (s : State) (q o : OperandId) : Prop :=
  q ∈ (s.content o).operands

/-- Looking into operands, and into the operands of these, comes to an end: what is inside an operand is decided by what is inside its
operands, and by nothing else. -/
structure Grounded (s : State) : Prop where
  founded : WellFounded s.Inside
  mentions : ∀ r o, s.mentions r o =
    match s.content o with
    | .immediate i => i == .register r
    | v => v.operands.any (s.mentions r)
  equivalent : ∀ a b, s.equivalent a b = (a == b || ((s.content a).shape == (s.content b).shape &&
    ((s.content a).operands.zip (s.content b).operands).all fun p => s.equivalent p.1 p.2))

variable {m : Method} {s : State} {o q : OperandId}

/-- What is inside an operand was produced before it. -/
theorem Coherent.index_lt_of_inside (h : s.Coherent m) (hq : s.Inside q o) : q.index < o.index := by
  unfold Inside content at hq
  split at hq
  · cases hq
  · by_cases hk : s.Known o
    · exact (h.operands o hk q hq).1
    · rw [State.operand, Array.getElem?_eq_none (Nat.le_of_not_lt hk)] at hq
      cases hq

theorem Coherent.grounded (h : s.Coherent m) : s.Grounded where
  founded := Subrelation.wf (fun hq => h.index_lt_of_inside hq) (InvImage.wf OperandId.index Nat.lt_wfRel.wf)
  mentions r o := by
    have inside : ∀ q ∈ (s.content o).operands, q.index < o.index := fun q hq => h.index_lt_of_inside hq
    rw [State.mentions]
    cases hv : s.content o with
    | immediate i => rfl
    | expr | ref =>
      rw [hv] at inside
      dsimp only
      rw [Bool.eq_iff_iff, List.any_eq_true, List.any_eq_true]
      exact exists_congr fun q => and_congr_right fun hq => by rw [dif_pos (inside q hq)]
  equivalent a b := by
    have inside : ∀ p ∈ (s.content a).operands.zip (s.content b).operands, p.1.index < a.index := fun p hp =>
      h.index_lt_of_inside (List.of_mem_zip hp).1
    rw [State.equivalent]
    congr 2
    rw [Bool.eq_iff_iff, List.all_eq_true, List.all_eq_true]
    exact forall_congr' fun p => forall_congr' fun hp => by dsimp only; rw [dif_pos (inside p hp)]

end State

/-! ## The bound -/

namespace Method

variable {m : Method}

/-- No operation adds more than two words to the stack. -/
theorem growth_le_two (op : Operation) : growth op ≤ 2 := by
  have kind : ∀ k : Kind, k.size ≤ 2 := fun k => by cases k <;> decide
  have type : ∀ t : ValueType, t.size ≤ 2 := fun t => by cases t <;> simp [ValueType.size]
  have const : ∀ c : Constant, c.size ≤ 2 := fun c => by unfold Constant.size; split <;> omega
  have effect : ∀ k, op.stackEffect = some k → k ≤ 2 := by
    intro k hk
    cases op with
    | label | throw | unhandled => cases hk
    | shuffle how count => cases how <;> cases count <;> cases hk <;> decide
    | arithmetic kind op =>
      simp only [Operation.stackEffect, Option.some.injEq] at hk
      split at hk
      · omega
      · split at hk <;> omega
    | const c =>
      have := const c
      simp only [Operation.stackEffect, Option.some.injEq] at hk
      omega
    | load k | arrayLoad k | convert _ k =>
      have := kind k
      simp only [Operation.stackEffect, Option.some.injEq] at hk
      omega
    | getStatic f | getField f =>
      have := type f.type
      simp only [Operation.stackEffect, Option.some.injEq] at hk
      omega
    | invoke k f =>
      have := type f.signature.ret
      simp only [Operation.stackEffect, Option.some.injEq] at hk
      split at hk <;> omega
    | invokeDynamic site =>
      have := type site.signature.ret
      simp only [Operation.stackEffect, Option.some.injEq] at hk
      omega
    | _ =>
      simp only [Operation.stackEffect, Option.some.injEq] at hk
      omega
  unfold growth
  split
  · exact Nat.le_succ 1
  · cases hk : op.stackEffect with
    | none => exact Nat.zero_le 2
    | some k =>
      have := effect k hk
      rw [Option.getD_some]
      omega

theorem depthBound_le (m : Method) : m.depthBound ≤ 2 * m.code.length + 1 := by
  have all : ∀ ops : List Operation, ops.foldr (growth · + ·) 1 ≤ 2 * ops.length + 1 := by
    intro ops
    induction ops with
    | nil => exact Nat.le_refl 1
    | cons op ops ih =>
      have := growth_le_two op
      rw [List.foldr_cons, List.length_cons]
      omega
  exact all m.code

/-- No list gets longer when repetitions are left out. -/
theorem length_eraseDups_le (ls : List Label) : ls.eraseDups.length ≤ ls.length := by
  cases ls with
  | nil => exact Nat.le_refl 0
  | cons l ls =>
    have hfilter := List.length_filter_le (fun b => !b == l) ls
    have hrest := length_eraseDups_le (ls.filter fun b => !b == l)
    rw [List.eraseDups_cons, List.length_cons, List.length_cons]
    omega
termination_by ls.length
decreasing_by
  have := List.length_filter_le (fun b => !b == l) ls
  rw [List.length_cons]
  omega

/-- There are no more handlers than entries of the exception table. -/
theorem length_handlerLabels_le (m : Method) : m.handlerLabels.length ≤ m.exceptions.length :=
  (length_eraseDups_le _).trans (Nat.le_of_eq (List.length_map _))

/-- The bound in terms of the number of operations and of the size of the exception table. -/
theorem taskBound_le (m : Method) : m.taskBound ≤
    m.exceptions.length + 1 + m.code.length * m.code.length * (m.code.length + 1) ^ (2 * m.code.length + 1) := by
  have hpow : (m.code.length + 1) ^ m.depthBound ≤ (m.code.length + 1) ^ (2 * m.code.length + 1) :=
    Nat.pow_le_pow_right (Nat.succ_pos _) m.depthBound_le
  exact Nat.add_le_add (Nat.add_le_add_right m.length_handlerLabels_le 1) (Nat.mul_le_mul_left _ hpow)

end Method

/-! ## The end of a run -/

namespace Traversal

variable {m : Method} {test : EdgeTest} {f : Fault}

/-- Visiting a method fails at the outset, or a task fails. -/
theorem error_of_complete (h : complete (S := State) test m = .error f) : start (S := State) m = .error f ∨
    ∃ (n : Nat) (t : Traversal State) (task : Task) (rest : List Task), After test m n t ∧ t.tasks = task :: rest ∧
      Traversal.follow test m { t with tasks := rest } task = .error f := by
  simp only [complete, bind_eq_error] at h
  rcases h with h | ⟨t, started, h⟩
  · exact Or.inl h
  · rcases (After.start started).of_run_error h with ⟨-, t', ha⟩ | hfails
    · have := ha.tasks_le
      omega
    · exact Or.inr hfails

/-- The bound on the work is never used up. -/
theorem complete_ne_unfinished : complete (S := State) test m ≠ .error .unfinished := by
  intro h
  rcases error_of_complete h with h | ⟨n, t, task, rest, ha, next, h⟩
  · obtain ⟨l, -, hf⟩ := start_eq_error.mp h
    cases hf
  · cases ha.blamesMethod next h

/-- Visiting a method whose labels all occur in the code fails for no fault of lowering itself. -/
theorem isInternal_of_complete (hl : ∀ l ∈ m.referredLabels, (m.labelIndex? l).isSome) (h : complete (S := State) test m = .error f) :
    f.isInternal = false := by
  rcases error_of_complete h with h | ⟨n, t, task, rest, ha, next, h⟩
  · exact absurd h (start_ne_error hl)
  · exact Fault.isInternal_of_blamesMethod (ha.blamesMethod next h)

/-- Visiting a method that succeeds has followed all tasks, and no more of them than the bound. -/
theorem after_of_complete {t : Traversal State} (h : complete test m = .ok t) : ∃ n ≤ m.taskBound, After test m n t ∧ t.tasks = [] := by
  simp only [complete, bind_eq_ok] at h
  obtain ⟨t₀, started, hrun⟩ := h
  obtain ⟨n, ha, hnil⟩ := (After.start started).of_run hrun
  exact ⟨n, (Nat.le_add_right _ _).trans ha.tasks_le, ha, hnil⟩

/-- A larger bound on the work makes no difference. -/
theorem complete_eq_run (test : EdgeTest) (m : Method) (k : Nat) :
    (start (S := State) m >>= run test m (m.taskBound + 1 + k)) = complete test m := by
  have h : complete (S := State) test m ≠ .error .unfinished := complete_ne_unfinished
  unfold complete at h ⊢
  cases hs : start (S := State) m with
  | error f => rfl
  | ok t =>
    rw [hs] at h
    exact run_add k h

/-- A task that is followed makes changes to the state and fixes depths. -/
theorem After.keeps {n : Nat} {t t' : Traversal State} {task : Task} {rest : List Task} (h : After test m n t) (next : t.tasks = task :: rest)
    (followed : Traversal.follow test m { t with tasks := rest } task = .ok t') :
    Changes m true t.state t'.state ∧ Lowering.DepthsKeep t.depths t'.depths := by
  have hx := h.explored (Guide.free_begins m)
  obtain ⟨halt, hwalk, hoffers⟩ := follow_eq_ok.mp followed
  obtain ⟨hg, hch₀⟩ := hx.begin next
  obtain ⟨hch₁, hkeep, -⟩ := Lowering.walk_spec hwalk rfl hg hx.size
  obtain ⟨hs, hd⟩ := offers_keep hoffers (I := fun u => u.state = halt.state ∧ u.depths = halt.depths) ⟨rfl, rfl⟩ fun _ _ _ hu _ => hu
  rw [hs, hd]
  exact ⟨hch₀.trans hch₁, hkeep⟩

/-- What came to an operation came with the depth that is fixed there. -/
theorem Arrived.depth {shares : Bool} {t : Traversal State} {i : Nat} {stack : Stack} (h : t.Arrived m shares i stack)
    (hi : i < m.code.length) : t.depths[i]?.join = some stack.length := by
  obtain ⟨origin, final, targets, hfol, -⟩ := h
  cases hfol with
  | fallen _ behind => exact absurd hi (Nat.not_lt.mpr behind)
  | ended passed | straight passed => exact passed.depth

/-- What a visit has used up after a number of tasks, and what it finds whenever it looks into operands. -/
structure Within (test : EdgeTest) (m : Method) (n : Nat) (t : Traversal State) : Prop where
  /-- Besides the beginnings, the tasks done and waiting are no more than the stacks sent, each along one edge. -/
  sent : ∃ sent : List ((Nat × Nat) × Stack), sent.Nodup ∧
    (∀ key stack, (key, stack) ∈ sent ↔ ∃ e : Edge, t.edges[key]? = some e ∧ stack ∈ e.history) ∧
    n + t.tasks.length ≤ m.handlerLabels.length + 1 + sent.length
  /-- No stack is sent along an edge again. -/
  once : ∀ (key : Nat × Nat) (e : Edge), t.edges[key]? = some e → e.history.Nodup
  tasks : n + t.tasks.length ≤ m.taskBound
  depth : ∀ i stack, t.Arrived m true i stack → i < m.code.length → t.depths[i]?.join = some stack.length
  /-- The next task changes the state and keeps the depths that are fixed. -/
  keeps : ∀ (task : Task) (rest : List Task) (t' : Traversal State), t.tasks = task :: rest →
    Traversal.follow test m { t with tasks := rest } task = .ok t' →
      Changes m true t.state t'.state ∧ Lowering.DepthsKeep t.depths t'.depths
  /-- Operands stay, and no instruction gets a second one. -/
  operands : ∀ s : State, Changes m true t.state s → t.state.Extends s ∧
    ∀ o p, s.Known o → s.Known p → (s.operand o).insn = (s.operand p).insn → o = p
  grounded : ∀ s : State, Changes m true t.state s → s.Grounded

theorem After.within {n : Nat} {t : Traversal State} (h : After test m n t) : t.Within test m n := by
  have hc := (h.explored (Guide.free_begins m)).coherent
  obtain ⟨sent, hcount⟩ := h.counted
  exact
    { sent := ⟨sent, hcount.nodup, hcount.mem, hcount.tasks⟩
      once := hcount.once
      tasks := h.tasks_le
      depth := fun _ _ harrived hi => harrived.depth hi
      keeps := fun _ _ _ next followed => h.keeps next followed
      operands := fun s hs => ⟨hs.extends hc, fun o p hk hk' he => (hs.coherent hc).operand_unique hk hk' he⟩
      grounded := fun s hs => (hs.coherent hc).grounded }

end Traversal

/-- Every method is visited in a number of tasks that the sizes of its code and of its exception table bound: a larger bound makes no
difference, the bound is never used up, what is visited is visited within it, and no sequence of tasks goes beyond it. In every state on the
way, looking into operands ends. -/
theorem Method.visit_terminates (m : Method) (test : EdgeTest) :
    (∀ k, (Traversal.start (S := State) m >>= Traversal.run test m (m.taskBound + 1 + k)) = Traversal.complete test m) ∧
      Traversal.complete (S := State) test m ≠ .error .unfinished ∧
      (∀ t : Traversal State, Traversal.complete test m = .ok t → ∃ n ≤ m.taskBound, Traversal.After test m n t ∧ t.tasks = []) ∧
      m.taskBound ≤
        m.exceptions.length + 1 + m.code.length * m.code.length * (m.code.length + 1) ^ (2 * m.code.length + 1) ∧
      ∀ n (t : Traversal State), Traversal.After test m n t → t.Within test m n :=
  ⟨Traversal.complete_eq_run test m, Traversal.complete_ne_unfinished, fun _ h => Traversal.after_of_complete h, m.taskBound_le,
    fun _ _ h => h.within⟩

end ThreeAddress
