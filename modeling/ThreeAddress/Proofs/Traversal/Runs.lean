import ThreeAddress.Proofs.Traversal.Failures

/-!
# Runs

`After test m n t` says that visiting a method has come to the traversal `t` after `n` tasks. What holds at the outset and is kept by
following one task holds of all these traversals. A run comes to an end with no task left, fails with a task, or uses up its bound. All of
this is so whatever the states of lowering are; the last section is about the states in which operands are looked up.
-/

namespace ThreeAddress.Traversal

open State

section
variable {S : Type} [LoweringState S]

/-- Visiting a method comes to a traversal after a number of tasks. -/
inductive After (test : EdgeTest) (m : Method) : Nat → Traversal S → Prop where
  | start {t : Traversal S} (started : start m = .ok t) : After test m 0 t
  | follow {n : Nat} {t t' : Traversal S} {task : Task} {rest : List Task} (before : After test m n t) (next : t.tasks = task :: rest)
      (followed : follow test m { t with tasks := rest } task = .ok t') : After test m (n + 1) t'

variable {m : Method} {test : EdgeTest} {t t' : Traversal S} {n : Nat} {f : Fault}

/-- A method that is visited at all refers to labels of its code only. -/
theorem After.labels (h : After test m n t) : ∀ l ∈ m.referredLabels, (m.labelIndex? l).isSome := by
  induction h with
  | start started =>
    rw [← Lowering.undefinedLabel?_eq_none]
    cases hu : Lowering.undefinedLabel? m with
    | none => rfl
    | some l => simp [Traversal.start, hu] at started
  | follow _ _ _ ih => exact ih

/-- A method that is visited to its end refers to labels of its code only. -/
theorem labels_of_complete (h : complete test m = .ok t) : ∀ l ∈ m.referredLabels, (m.labelIndex? l).isSome := by
  simp only [complete, bind_eq_ok] at h
  obtain ⟨t₀, started, -⟩ := h
  have outset : After test m 0 t₀ := .start started
  exact outset.labels

/-! ## How a run ends -/

/-- A run that succeeds has followed all tasks. -/
theorem After.of_run {fuel : Nat} (h : After test m n t) (hrun : run test m fuel t = .ok t') :
    ∃ n', After test m n' t' ∧ t'.tasks = [] := by
  induction fuel generalizing n t with
  | zero => cases hrun
  | succ fuel ih =>
    rw [run] at hrun
    split at hrun
    · rename_i hnil
      cases hrun
      exact ⟨n, h, hnil⟩
    · rename_i task rest next
      simp only [bind_eq_ok] at hrun
      obtain ⟨mid, followed, hrun⟩ := hrun
      exact ih (.follow h next followed) hrun

/-- A run that fails has used up its bound, or one of its tasks fails. -/
theorem After.of_run_error {fuel : Nat} (h : After test m n t) (hrun : run test m fuel t = .error f) :
    (f = .unfinished ∧ ∃ t' : Traversal S, After test m (n + fuel) t') ∨
      ∃ (n' : Nat) (t' : Traversal S) (task : Task) (rest : List Task), After test m n' t' ∧ t'.tasks = task :: rest ∧
        Traversal.follow test m { t' with tasks := rest } task = .error f := by
  induction fuel generalizing n t with
  | zero =>
    cases hrun
    exact Or.inl ⟨rfl, t, h⟩
  | succ fuel ih =>
    rw [run] at hrun
    split at hrun
    · cases hrun
    · rename_i task rest next
      simp only [bind_eq_error] at hrun
      rcases hrun with hf | ⟨mid, followed, hrun⟩
      · exact Or.inr ⟨n, t, task, rest, h, next, hf⟩
      · rw [← Nat.add_assoc, Nat.add_right_comm]
        exact ih (.follow h next followed) hrun

/-- A run that does not use up its bound needs no larger one. -/
theorem run_add {fuel : Nat} (k : Nat) (h : run test m fuel t ≠ .error .unfinished) : run test m (fuel + k) t = run test m fuel t := by
  induction fuel generalizing t with
  | zero => exact absurd rfl h
  | succ fuel ih =>
    rw [Nat.add_right_comm]
    rw [run] at h ⊢
    rw [run]
    split
    · rfl
    · rename_i task rest next
      simp only [next] at h
      cases hf : Traversal.follow test m { t with tasks := rest } task with
      | error e => rfl
      | ok t' =>
        rw [hf] at h
        exact ih h

/-! ## Offers -/

/-- A stack that is offered to an edge is sent along it if it never was before, and nothing else happens. -/
theorem offer_eq_ok {key : Nat × Nat} (h : t.offer test key = .ok t') :
    t' = t ∨ (t' = t.send key (LoweringState.stack t.state) ∧ ∀ e, t.edges[key]? = some e → LoweringState.stack t.state ∉ e.history) := by
  simp only [offer] at h
  split at h
  · rename_i hv
    cases h
    refine Or.inr ⟨rfl, fun e he hmem => ?_⟩
    have unsent : e.unlessSent (LoweringState.stack t.state) = .skip := by simp [Edge.unlessSent, hmem]
    rw [he] at hv
    dsimp only [EdgeTest.verdict] at hv
    split at hv
    · split at hv <;> cases hv
    · rw [unsent] at hv
      cases hv
  · cases h
    exact Or.inl rfl
  · cases h

/-- What every stack that is sent keeps is kept by offering a stack to several edges. -/
theorem offers_keep {I : Traversal S → Prop} {origin : Nat} {targets : List Nat}
    (h : targets.foldlM (fun t j => t.offer test (origin, j)) t = .ok t') (holds : I t)
    (send : ∀ u : Traversal S, ∀ j ∈ targets, I u → (∀ e, u.edges[(origin, j)]? = some e → LoweringState.stack u.state ∉ e.history) →
      I (u.send (origin, j) (LoweringState.stack u.state))) : I t' := by
  induction targets generalizing t with
  | nil =>
    cases h
    exact holds
  | cons j targets ih =>
    simp only [List.foldlM_cons, bind_eq_ok] at h
    obtain ⟨mid, hoffer, h⟩ := h
    refine ih h ?_ fun u k hk => send u k (List.mem_cons_of_mem _ hk)
    rcases offer_eq_ok hoffer with rfl | ⟨rfl, unsent⟩
    · exact holds
    · exact send t j List.mem_cons_self holds unsent

/-- The traversal in which the stack that a walk left is offered. -/
def halted (t : Traversal S) (task : Task) (rest : List Task) (halt : Lowering.Halt S) : Traversal S :=
  { state := halt.state, depths := halt.depths, edges := (t.arrive task.edge).edges, tasks := rest }

/-- Following a task is a walk and then an offer of what that leaves to every edge at which control divides. -/
theorem follow_eq (test : EdgeTest) (m : Method) (t : Traversal S) (task : Task) (rest : List Task) :
    Traversal.follow test m { t with tasks := rest } task =
      Lowering.walk m task.target (m.code.drop task.target) (LoweringState.withStack t.state task.stack) t.depths >>= fun halt =>
        halt.targets.foldlM (fun t j => t.offer test (halt.origin, j)) (t.halted task rest halt) := by
  simp only [Traversal.follow, arrive_tasks]
  rfl

theorem follow_eq_ok {task : Task} {rest : List Task} : Traversal.follow test m { t with tasks := rest } task = .ok t' ↔
    ∃ halt, Lowering.walk m task.target (m.code.drop task.target) (LoweringState.withStack t.state task.stack) t.depths = .ok halt ∧
      halt.targets.foldlM (fun t j => t.offer test (halt.origin, j)) (t.halted task rest halt) = .ok t' := by
  rw [follow_eq, bind_eq_ok]

end

/-! ## Where operands are looked up -/

variable {m : Method} {shares : Bool} {g : Guide m shares} {test : EdgeTest} {t : Traversal State} {n : Nat} {f : Fault}

/-- Between any two tasks the traversal is explored as far as the tasks were followed, if it is so at the outset. -/
theorem After.explored_of (h : After test m n t) (outset : ∀ t, Traversal.start m = .ok t → t.Explored g fun _ _ => False) :
    t.Explored g fun _ _ => False := by
  induction h with
  | start started => exact outset _ started
  | follow _ next followed ih => exact follow_spec followed next ih

theorem After.explored (h : After test m n t) (hg : g.Begins) : t.Explored g fun _ _ => False :=
  h.explored_of fun _ started => start_spec started hg

/-- The tasks at the outset are the first instruction and the handlers. They get there along no edge, with at most one word on the stack. -/
theorem start_eq_ok (h : start m = .ok t) : t.edges = {} ∧ t.depths = Array.replicate m.code.length none ∧
    t.tasks.length ≤ m.handlerLabels.length + 1 ∧ ∀ task ∈ t.tasks, task.edge = none ∧ task.stack.length ≤ 1 := by
  simp only [Traversal.start] at h
  split at h
  · cases h
  · split at h
    · cases h
      exact ⟨rfl, rfl, Nat.zero_le _, fun task ht => (by cases ht)⟩
    · simp only [bind_eq_ok] at h
      obtain ⟨⟨k, s⟩, -, handlers, hhandlers, h⟩ := h
      cases h
      have hall := mapM_eq_ok.mp hhandlers
      refine ⟨rfl, rfl, by simp [hall.length_eq], fun task ht => ?_⟩
      rcases List.mem_cons.mp ht with rfl | ht
      · exact ⟨rfl, Nat.zero_le 1⟩
      · obtain ⟨l, -, hl⟩ := exists_of_forall₂ hall (List.mem_reverse.mp ht)
        simp only [handlerTask, bind_eq_ok, pure_eq_ok] at hl
        obtain ⟨i, -, rfl⟩ := hl
        exact ⟨rfl, by simp only [LoweringState.entryStack, Option.length_toList]; split <;> simp⟩

/-- A task that fails blames the method. -/
theorem After.blamesMethod {task : Task} {rest : List Task} (h : After test m n t) (next : t.tasks = task :: rest)
    (hf : Traversal.follow test m { t with tasks := rest } task = .error f) : f.blamesMethod :=
  blamesMethod_of_follow h.labels hf next (h.explored (Guide.free_begins m))

end ThreeAddress.Traversal
