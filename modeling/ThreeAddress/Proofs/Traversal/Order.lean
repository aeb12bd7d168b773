import ThreeAddress.Proofs.Lowering.Frames
import ThreeAddress.Proofs.Traversal.Runs

/-!
# The order of tasks

A stack that is offered to an edge may find another one waiting there. As long as it never does, the two ways to tell whether a stack is to
be sent agree. Tasks are followed latest first, so that whatever waits was sent from operations that control has come from: a stack finds
another one waiting only where control has come around a cycle.
-/

namespace ThreeAddress

open State

/-- No operation that control can come to is on a cycle. -/
def Method.Acyclic (m : Method) : Prop :=
  ∀ (i : Nat) (op : Operation) (j : Nat), m.Reachable i → m.code[i]? = some op → m.Leads i op j → ¬ m.Flows j i

variable {m : Method} {shares : Bool} {s : State} {depths : Array (Option Nat)} {i : Nat} {before : Stack}

/-- Control only goes forward. -/
def Method.goesForward (m : Method) : Bool :=
  m.code.zipIdx.all fun (op, i) => (m.successors i op).all (i < ·)

theorem Method.acyclic_of_goesForward (h : m.goesForward) : m.Acyclic := by
  have forward : ∀ i op j, m.code[i]? = some op → m.Leads i op j → i < j := by
    intro i op j here leads
    have hop := List.all_eq_true.mp h (op, i) (List.mem_zipIdx_iff_getElem?.mpr here)
    exact of_decide_eq_true (List.all_eq_true.mp hop j (mem_successors.mpr leads))
  have flows : ∀ i j, m.Flows i j → i ≤ j := by
    intro i j hf
    induction hf with
    | refl => exact Nat.le_refl _
    | tail _ hstep ih =>
      obtain ⟨op, here, leads⟩ := hstep
      exact Nat.le_trans ih (Nat.le_of_lt (forward _ op _ here leads))
  intro i op j _ here leads hf
  exact Nat.not_lt.mpr (flows j i hf) (forward i op j here leads)

/-! ## Where control was followed -/

/-- Control flows from where it was followed to where it divides. -/
theorem Followed.flows {origin : Nat} {final : Stack} {targets : List Nat} (h : Followed m shares s depths origin final targets i before) :
    m.Flows i origin := by
  induction h with
  | fallen | ended => exact .refl
  | straight passed exits _ ih => exact .head ⟨_, passed.here, (Lowering.leads_of_straight exits).mpr rfl⟩ ih

/-- The operation at which control divides leads to all that control is sent to. -/
theorem Followed.leads {origin j : Nat} {final : Stack} {targets : List Nat}
    (h : Followed m shares s depths origin final targets i before) (hj : j ∈ targets) :
    ∃ op, m.code[origin]? = some op ∧ m.Leads origin op j := by
  induction h with
  | fallen none => simp [none] at hj
  | ended passed exits => exact ⟨_, passed.here, (Lowering.leads_of_exits exits).1 j hj⟩
  | straight _ _ _ ih => exact ih

theorem Method.Reachable.flows {j : Nat} (h : m.Reachable i) (hf : m.Flows i j) : m.Reachable j := by
  obtain ⟨root, hroot, hflows⟩ := h
  exact ⟨root, hroot, hflows.trans hf⟩

/-- Control is sent to operations that can be reached. -/
def Guide.reachable (m : Method) : Guide m true where
  sound _ := True
  admits _ i _ := m.Reachable i
  withStack _ _ := trivial
  mono h _ _ _ _ := h
  alike _ _ _ _ h := by cases h
  visit _ _ _ h here _ _ _ _ := ⟨trivial, fun _ leads => h.step here leads⟩

theorem Guide.reachable_begins (m : Method) : (Guide.reachable m).Begins where
  sound _ _ := trivial
  admits _ i _ _ hroot := by
    rcases hroot with ⟨rfl, -⟩ | ⟨l, hl, hi, -⟩
    · exact ⟨0, Or.inl rfl, .refl⟩
    · exact Method.reachable_of_handler hl hi

/-- A visit leaves memories only with operations that control can reach, and rows of the length of what these take. -/
def Guide.confined (m : Method) : Guide m true where
  sound s := s.RowsFull m ∧ ∀ i, s.frame i ≠ default → m.Reachable i
  admits _ i _ := m.Reachable i
  withStack _ h := h
  mono h _ _ _ _ := h
  alike _ _ _ _ h := by cases h
  visit := by
    rintro s s' i op - - ⟨hrows, hframes⟩ hi here hop - - -
    refine ⟨⟨hrows.visit here hop, fun j hj => ?_⟩, fun j leads => hi.step here leads⟩
    by_cases hji : j = i
    · exact hji ▸ hi
    · rw [Lowering.local_lowerOperation m op s _ s' hop j hji] at hj
      exact hframes j hj

theorem Guide.confined_begins (m : Method) : (Guide.confined m).Begins where
  sound s hs := by
    refine ⟨fun i op row _ hrow => ?_, fun i hi => ?_⟩
    · rw [hs.frame] at hrow
      cases hrow
    · exact absurd (hs.frame i) hi
  admits s i _ hs hroot := (Guide.reachable_begins m).admits s i _ hs hroot

/-! ## Stacks that wait -/

/-- Wherever control divides, the stack that it carries finds no other one waiting. -/
def Method.Undisturbed (m : Method) : Prop :=
  ∀ (n : Nat) (t : Traversal State) (task : Task) (rest : List Task) (halt : Lowering.Halt State), Traversal.After .pendingFirst m n t →
    t.tasks = task :: rest →
    Lowering.walk m task.target (m.code.drop task.target) (t.state.withStack task.stack) t.depths = .ok halt →
    ∀ j ∈ halt.targets, ∀ (e : Edge) (p : Stack), (t.arrive task.edge).edges[(halt.origin, j)]? = some e → e.pending = some p →
      p = halt.state.stack

/-- A stack stands for the same as itself. -/
theorem equivalentStacks_refl (s : State) (a : Stack) : s.equivalentStacks a a := by
  have operands : ∀ o, s.equivalent o o := by
    intro o
    rw [State.equivalent, beq_self_eq_true, Bool.true_or]
  have words : ∀ w, s.equivalentWords w w := by
    intro w
    cases w with
    | wideHalf => rfl
    | operand o => exact operands o
  rw [State.equivalentStacks, beq_self_eq_true, Bool.true_and]
  induction a with
  | nil => rfl
  | cons w a ih =>
    rw [List.zip_cons_cons, List.all_cons, ih, Bool.and_true]
    exact words w

namespace Traversal

variable {test : EdgeTest} {t u : Traversal State} {n : Nat}

/-- The two tests agree on a stack that finds no other one waiting. -/
theorem offer_congr {key : Nat × Nat} (sent : ∀ (e : Edge) (p : Stack), u.edges[key]? = some e → e.pending = some p → p ∈ e.history)
    (same : ∀ (e : Edge) (p : Stack), u.edges[key]? = some e → e.pending = some p → p = u.state.stack) :
    u.offer .pendingFirst key = u.offer .historyOnly key := by
  unfold offer
  cases he : u.edges[key]? with
  | none => rfl
  | some e =>
    have verdict : EdgeTest.verdict .pendingFirst u.state e (LoweringState.stack u.state) =
        EdgeTest.verdict .historyOnly u.state e (LoweringState.stack u.state) := by
      cases hp : e.pending with
      | none => simp [EdgeTest.verdict, hp]
      | some p =>
        have hmem := sent e p he hp
        obtain rfl := same e p he hp
        simp [EdgeTest.verdict, LoweringState.equivalentStacks, LoweringState.stack, hp, Edge.unlessSent, hmem, equivalentStacks_refl]
    simp only [verdict]

/-- The two tests agree on a stack that finds no other one waiting on any of several edges. -/
theorem offers_congr {origin : Nat} {targets : List Nat}
    (sent : ∀ (key : Nat × Nat) (e : Edge) (p : Stack), u.edges[key]? = some e → e.pending = some p → p ∈ e.history)
    (same : ∀ j ∈ targets, ∀ (e : Edge) (p : Stack), u.edges[(origin, j)]? = some e → e.pending = some p → p = u.state.stack) :
    targets.foldlM (fun t j => t.offer .pendingFirst (origin, j)) u = targets.foldlM (fun t j => t.offer .historyOnly (origin, j)) u := by
  induction targets generalizing u with
  | nil => rfl
  | cons j targets ih =>
    rw [List.foldlM_cons, List.foldlM_cons, offer_congr (sent _) (same j List.mem_cons_self)]
    cases ho : u.offer .historyOnly (origin, j) with
    | error f => rfl
    | ok u' =>
      have same' : ∀ k ∈ targets, ∀ (e : Edge) (p : Stack), u.edges[(origin, k)]? = some e → e.pending = some p → p = u.state.stack :=
        fun k hk => same k (List.mem_cons_of_mem _ hk)
      rcases offer_eq_ok ho with rfl | ⟨rfl, -⟩
      · exact ih sent same'
      · refine ih (fun key e p he hp => ?_) (fun k hk e p he hp => ?_)
        · rw [edges_send] at he
          split at he
          · simp only [Option.some.injEq] at he
            subst he
            simp only [Option.some.injEq] at hp
            simp [hp]
          · exact sent key e p he hp
        · rw [edges_send] at he
          split at he
          · simp only [Option.some.injEq] at he
            subst he
            simp only [Option.some.injEq] at hp
            exact hp.symm
          · exact same' k hk e p he hp

/-- Where no stack finds another one waiting, the two tests make the same of every task. -/
theorem follow_congr {task : Task} {rest : List Task} (hm : m.Undisturbed) (h : After .pendingFirst m n t) (next : t.tasks = task :: rest) :
    Traversal.follow .pendingFirst m { t with tasks := rest } task = Traversal.follow .historyOnly m { t with tasks := rest } task := by
  rw [follow_eq, follow_eq]
  cases hwalk : Lowering.walk m task.target (m.code.drop task.target) (t.state.withStack task.stack) t.depths with
  | error f => rfl
  | ok halt =>
    obtain ⟨hx, -⟩ := (h.explored (Guide.free_begins m)).walked next hwalk
    exact offers_congr hx.pending (hm n t task rest halt h next hwalk)

theorem run_congr {fuel : Nat} (hm : m.Undisturbed) (h : After .pendingFirst m n t) :
    run .pendingFirst m fuel t = run .historyOnly m fuel t := by
  induction fuel generalizing n t with
  | zero => rfl
  | succ fuel ih =>
    rw [run, run]
    split
    · rfl
    · rename_i task rest next
      rw [← follow_congr hm h next]
      cases hf : Traversal.follow .pendingFirst m { t with tasks := rest } task with
      | error f => rfl
      | ok t' => exact ih (.follow h next hf)

/-- Where no stack finds another one waiting, a method is visited in the same way with either test. -/
theorem complete_congr (hm : m.Undisturbed) : complete (S := State) .pendingFirst m = complete .historyOnly m := by
  unfold complete
  cases hs : start (S := State) m with
  | error f => rfl
  | ok t => exact run_congr hm (.start hs)

/-! ## What waits where -/

/-- How the tasks stand in their order: a stack that waits is that of a task, and control came from the edge of a task to the edges of all
tasks above it. -/
structure Ordered (m : Method) (t : Traversal State) : Prop where
  waits : ∀ (key : Nat × Nat) (e : Edge) (p : Stack), t.edges[key]? = some e → e.pending = some p → ∃ task ∈ t.tasks, task.edge = some key
  along : ∀ task ∈ t.tasks, ∀ r, task.edge = some r →
    m.Reachable r.1 ∧ ∃ op, m.code[r.1]? = some op ∧ m.Leads r.1 op task.target
  above : t.tasks.Pairwise fun a b => ∀ r, b.edge = some r → ∃ q, a.edge = some q ∧ m.Flows r.1 q.1

/-- No stack waits on an edge that is followed. -/
theorem pending_arrive {key : Nat × Nat} {e : Edge} (h : (t.arrive (some key)).edges[key]? = some e) : e.pending = none := by
  simp only [arrive, Std.TreeMap.getElem?_modify, edgeOrder_eq] at h
  simp only [if_true, Option.map_eq_some_iff] at h
  obtain ⟨e', -, rfl⟩ := h
  rfl

/-- The tasks below one that is followed stay in order, and control comes from their edges to where it divides. -/
theorem Ordered.halted {task : Task} {rest : List Task} {halt : Lowering.Halt State} (h : Ordered m t) (next : t.tasks = task :: rest)
    (hf : m.Flows task.target halt.origin) :
    Ordered m (t.halted task rest halt) ∧ ∀ b ∈ rest, ∀ r, b.edge = some r →
      ∃ q, task.edge = some q ∧ m.Flows r.1 q.1 ∧ m.Flows r.1 halt.origin := by
  have habove := h.above
  rw [next, List.pairwise_cons] at habove
  refine ⟨⟨fun key e p he hp => ?_, fun b hb => ?_, habove.2⟩, fun b hb r hr => ?_⟩
  · obtain ⟨b, hb, hkey⟩ := h.waits key e p ((edges_arrive t task.edge key).2 e p he hp) hp
    rw [next] at hb
    rcases List.mem_cons.mp hb with rfl | hb
    · rw [Traversal.halted, hkey] at he
      rw [pending_arrive he] at hp
      cases hp
    · exact ⟨b, hb, hkey⟩
  · exact h.along b (by rw [next]; exact List.mem_cons_of_mem _ hb)
  · obtain ⟨q, hq, hflows⟩ := habove.1 b hb r hr
    obtain ⟨-, op, here, leads⟩ := h.along task (by rw [next]; exact List.mem_cons_self) q hq
    exact ⟨q, hq, hflows, (hflows.tail ⟨op, here, leads⟩).trans hf⟩

/-- A stack that is sent from where control came to from the edges of all tasks goes above them. -/
theorem Ordered.send {origin j : Nat} {op : Operation} {stack : Stack} (h : Ordered m t) (reached : m.Reachable origin)
    (here : m.code[origin]? = some op) (leads : m.Leads origin op j)
    (hbelow : ∀ b ∈ t.tasks, ∀ r, b.edge = some r → m.Flows r.1 origin) : Ordered m (t.send (origin, j) stack) where
  waits key e p he hp := by
    rw [edges_send] at he
    split at he
    · rename_i hkey
      exact ⟨_, List.mem_cons_self, congrArg some hkey⟩
    · obtain ⟨task, ht, hedge⟩ := h.waits key e p he hp
      exact ⟨task, List.mem_cons_of_mem _ ht, hedge⟩
  along task ht r hr := by
    rcases List.mem_cons.mp ht with rfl | ht
    · cases hr
      exact ⟨reached, op, here, leads⟩
    · exact h.along task ht r hr
  above := List.pairwise_cons.mpr ⟨fun b hb r hr => ⟨_, rfl, hbelow b hb r hr⟩, h.above⟩

/-- After every number of tasks the tasks are in order. -/
theorem After.ordered (h : After test m n t) : Ordered m t := by
  induction h with
  | @start t started =>
    obtain ⟨hedges, -, -, hall⟩ := start_eq_ok started
    have none : ∀ task ∈ t.tasks, ∀ r, task.edge = some r → False := fun task ht r hr => by simp [(hall task ht).1] at hr
    refine ⟨fun key e p he => by simp [hedges] at he, fun task ht r hr => (none task ht r hr).elim, ?_⟩
    exact List.Pairwise.imp_of_mem (fun _ hb _ r hr => (none _ hb r hr).elim) (List.pairwise_of_forall fun _ _ => trivial)
  | @follow n t t' task rest before next followed ih =>
    have hx := before.explored (Guide.reachable_begins m)
    obtain ⟨halt, hwalk, hoffers⟩ := follow_eq_ok.mp followed
    obtain ⟨hmid, -, hfol⟩ := hx.walked next hwalk
    have hreached := (hx.tasks task (by rw [next]; exact List.mem_cons_self)).admits.flows hfol.flows
    obtain ⟨hord, hbelow⟩ := ih.halted next hfol.flows
    refine (offers_keep hoffers (I := fun u => Ordered m u ∧ ∀ b ∈ u.tasks, ∀ r, b.edge = some r → m.Flows r.1 halt.origin)
      ⟨hord, fun b hb r hr => ?_⟩ ?_).1
    · obtain ⟨-, -, -, hflows⟩ := hbelow b hb r hr
      exact hflows
    · rintro u j hj ⟨hu, hb⟩ -
      obtain ⟨op, here, leads⟩ := hfol.leads hj
      refine ⟨hu.send hreached here leads hb, fun b hmem r hr => ?_⟩
      rcases List.mem_cons.mp hmem with rfl | hmem
      · cases hr
        exact .refl
      · exact hb b hmem r hr

end Traversal

/-- Where no cycle can be reached, no stack finds another one waiting. -/
theorem Method.Acyclic.undisturbed (h : m.Acyclic) : m.Undisturbed := by
  intro n t task rest halt after next hwalk j hj e p he hp
  obtain ⟨-, -, hfol⟩ := (after.explored (Guide.free_begins m)).walked next hwalk
  have hflows : m.Flows task.target halt.origin := hfol.flows
  obtain ⟨hord, hbelow⟩ := after.ordered.halted next hflows
  obtain ⟨b, hb, hedge⟩ := hord.waits _ e p he hp
  -- The task that waits there is below, so that control has come back to where it divides.
  obtain ⟨q, hq, hback, -⟩ := hbelow b hb _ hedge
  obtain ⟨hreached, op, here, leads⟩ := after.ordered.along task (by rw [next]; exact List.mem_cons_self) q hq
  exact absurd (hflows.trans hback) (h q.1 op task.target hreached here leads)

end ThreeAddress
