import ThreeAddress.Proofs.Lowering.Beginnings
import ThreeAddress.Proofs.Traversal.Walks

/-!
# The worklist

`Explored` is what holds of a traversal between any two tasks: wherever control was sent, it is still to be followed or was followed, and
what it left was sent on. Once no task is left, everything that control reaches was visited.
-/

namespace ThreeAddress

open State

theorem edgeOrder_eq {a b : Nat × Nat} : edgeOrder a b = .eq ↔ a = b := by
  obtain ⟨a₁, a₂⟩ := a
  obtain ⟨b₁, b₂⟩ := b
  simp [compareLex, compareOn, Ordering.then_eq_eq]

/-! ## Where control was sent -/

/-- Control begins at an operation with a stack: at the first one, and at every handler. -/
def Root (m : Method) (s : State) (i : Nat) (stack : Stack) : Prop :=
  (i = 0 ∧ stack = []) ∨
    ∃ l ∈ m.handlerLabels, m.labelIndex? l = some i ∧ stack = (( s.handlerEntry? i).map fun e => .operand e.operand).toList

namespace Traversal

/-- A stack was sent along an edge, or one whose words are of the same kinds. -/
def Sent (t : Traversal State) (key : Nat × Nat) (outline : Stack) : Prop :=
  ∃ e : Edge, t.edges[key]? = some e ∧ ∃ stack ∈ e.history, Stack.outline stack = outline

/-- Control begins at an operation with a stack or was sent there. -/
def Awaited (m : Method) (t : Traversal State) (i : Nat) (stack : Stack) : Prop :=
  Root m t.state i stack ∨ ∃ (origin : Nat) (e : Edge), t.edges[(origin, i)]? = some e ∧ stack ∈ e.history

/-- Control was followed from an operation with a stack, and what that left was sent on to wherever control goes. -/
def Arrived (m : Method) (shares : Bool) (t : Traversal State) (i : Nat) (stack : Stack) : Prop :=
  ∃ origin final targets, Followed m shares t.state t.depths origin final targets i stack ∧
    ∀ j ∈ targets, t.Sent (origin, j) final.outline

/-- What holds of a traversal between any two tasks. While a task is followed it is `current`. -/
structure Explored {m : Method} {shares : Bool} (g : Guide m shares) (current : Nat → Stack → Prop) (t : Traversal State) : Prop where
  coherent : t.state.Coherent m
  settled : t.state.Settled
  fit : t.state.EntriesFit m
  sound : g.sound t.state
  size : t.depths.size = m.code.length
  tasks : ∀ task ∈ t.tasks, g.Holds t.state task.target task.stack
  pending : ∀ (key : Nat × Nat) (e : Edge) (p : Stack), t.edges[key]? = some e → e.pending = some p → p ∈ e.history
  histories : ∀ (key : Nat × Nat) (e : Edge) (stack : Stack), t.edges[key]? = some e → stack ∈ e.history → g.Holds t.state key.2 stack
  followed : ∀ i stack, t.Awaited m i stack →
    (∃ task ∈ t.tasks, task.target = i ∧ task.stack = stack) ∨ t.Arrived m shares i stack ∨ current i stack

variable {m : Method} {shares : Bool} {g : Guide m shares} {current : Nat → Stack → Prop} {test : EdgeTest} {t t' : Traversal State}

/-! ## One stack along one edge -/

theorem edges_send (t : Traversal State) (key : Nat × Nat) (stack : Stack) (k : Nat × Nat) :
    (t.send key stack).edges[k]? =
      if key = k then some { pending := some stack, history := ((t.edges[key]?).getD default).history ++ [stack] } else t.edges[k]? := by
  simp only [send, Std.TreeMap.getElem?_insert, edgeOrder_eq]

theorem sent_send (t : Traversal State) (key : Nat × Nat) (stack : Stack) : (t.send key stack).Sent key stack.outline :=
  ⟨_, (edges_send t key stack key).trans (if_pos rfl), stack, by simp, rfl⟩

theorem Sent.send {key k : Nat × Nat} {stack d : Stack} (h : t.Sent k d) : (t.send key stack).Sent k d := by
  obtain ⟨e, he, b, hb, hd⟩ := h
  by_cases hk : key = k
  · subst hk
    exact ⟨_, (edges_send t key stack key).trans (if_pos rfl), b, by simp [he, hb], hd⟩
  · exact ⟨e, (edges_send t key stack k).trans ((if_neg hk).trans he), b, hb, hd⟩

/-- Control was followed as before if neither the state nor the depths changed and nothing that was sent was lost. -/
theorem Arrived.mono {i : Nat} {stack : Stack} (h : t.Arrived m shares i stack) (he : t.state.Extends t'.state)
    (hc : t.state.Coherent m) (hc' : t'.state.Coherent m) (hd : Lowering.DepthsKeep t.depths t'.depths)
    (hs : ∀ key d, t.Sent key d → t'.Sent key d) : t'.Arrived m shares i stack := by
  obtain ⟨origin, final, targets, hf, hsent⟩ := h
  exact ⟨origin, final, targets, hf.mono he hc hc' hd, fun j hj => hs _ _ (hsent j hj)⟩

/-- The history of an edge has one stack more once that stack was sent along it. -/
theorem mem_history_send {key k : Nat × Nat} {stack b : Stack} {e : Edge} (he : (t.send key stack).edges[k]? = some e)
    (hb : b ∈ e.history) : (∃ e : Edge, t.edges[k]? = some e ∧ b ∈ e.history) ∨ (k = key ∧ b = stack) := by
  rw [edges_send] at he
  split at he
  · rename_i hkey
    simp only [Option.some.injEq] at he
    subst he hkey
    rcases List.mem_append.mp hb with hb | hb
    · cases hold : t.edges[key]? with
      | none => simp [hold, default, instInhabitedEdge.default] at hb
      | some e =>
        rw [hold] at hb
        exact Or.inl ⟨e, rfl, hb⟩
    · exact Or.inr ⟨rfl, List.mem_singleton.mp hb⟩
  · exact Or.inl ⟨e, he, hb⟩

/-- Sending a stack along an edge makes a task of it. -/
theorem Explored.send {key : Nat × Nat} {stack : Stack} (h : t.Explored g current) (hk : g.Holds t.state key.2 stack) :
    (t.send key stack).Explored g current where
  coherent := h.coherent
  settled := h.settled
  fit := h.fit
  sound := h.sound
  size := h.size
  tasks task ht := by
    rcases List.mem_cons.mp ht with rfl | ht
    · exact hk
    · exact h.tasks task ht
  pending k e p he hp := by
    rw [edges_send] at he
    split at he
    · simp only [Option.some.injEq] at he
      subst he
      simp only [Option.some.injEq] at hp
      simp [hp]
    · exact h.pending k e p he hp
  histories k e b he hb := by
    rcases mem_history_send he hb with ⟨e, he, hb⟩ | ⟨rfl, rfl⟩
    · exact h.histories k e b he hb
    · exact hk
  followed i b hb := by
    have old : t.Awaited m i b ∨ (i = key.2 ∧ b = stack) := by
      rcases hb with hb | ⟨origin, e, he, hmem⟩
      · exact Or.inl (Or.inl hb)
      · rcases mem_history_send he hmem with hold | ⟨rfl, rfl⟩
        · exact Or.inl (Or.inr ⟨origin, hold⟩)
        · exact Or.inr ⟨rfl, rfl⟩
    rcases old with hold | ⟨rfl, rfl⟩
    · rcases h.followed i b hold with ⟨task, ht, htask⟩ | ha | hcur
      · exact Or.inl ⟨task, List.mem_cons_of_mem _ ht, htask⟩
      · exact Or.inr (Or.inl (ha.mono (.refl _) h.coherent h.coherent (.refl _) fun _ _ => Sent.send))
      · exact Or.inr (Or.inr hcur)
    · exact Or.inl ⟨_, List.mem_cons_self, rfl, rfl⟩

/-- Stacks that stand for the same have words of the same kinds. -/
theorem outline_of_equivalentStacks {s : State} {a b : Stack} (h : s.equivalentStacks a b) : a.outline = b.outline := by
  simp only [State.equivalentStacks, Bool.and_eq_true, beq_iff_eq] at h
  obtain ⟨hlen, hall⟩ := h
  induction a generalizing b with
  | nil =>
    obtain rfl := List.length_eq_zero_iff.mp hlen.symm
    rfl
  | cons v a ih =>
    cases b with
    | nil => cases hlen
    | cons w b =>
      simp only [List.zip_cons_cons, List.all_cons, Bool.and_eq_true] at hall
      have hword : v.outline = w.outline := by
        obtain ⟨hvw, -⟩ := hall
        cases v <;> cases w <;> first | rfl | cases hvw
      exact congrArg₂ List.cons hword (ih (Nat.succ.inj hlen) hall.2)

/-- What an edge may leave unsent has words of the same kinds as something that was sent. -/
theorem sent_of_skip {s : State} {key : Nat × Nat} {e : Edge} {stack : Stack} (he : t.edges[key]? = some e)
    (hp : ∀ p, e.pending = some p → p ∈ e.history) (h : test.verdict s e stack = .skip) : t.Sent key stack.outline := by
  have history : e.unlessSent stack = .skip → t.Sent key stack.outline := by
    intro hu
    unfold Edge.unlessSent at hu
    split at hu
    · rename_i hc
      exact ⟨e, he, stack, List.contains_iff_mem.mp hc, rfl⟩
    · cases hu
  unfold EdgeTest.verdict at h
  split at h
  · rename_i p hpend
    split at h
    · rename_i heq
      exact ⟨e, he, p, hp p hpend, outline_of_equivalentStacks heq⟩
    · cases h
  · exact history h

/-- A stack that is offered to an edge was sent along it afterwards, or one with words of the same kinds was. -/
theorem offer_spec {key : Nat × Nat} (h : t.offer test key = .ok t') (hx : t.Explored g current)
    (hk : g.Holds t.state key.2 t.state.stack) :
    t'.Explored g current ∧ t'.state = t.state ∧ t'.depths = t.depths ∧ t'.Sent key t.state.stack.outline ∧
      ∀ k d, t.Sent k d → t'.Sent k d := by
  simp only [offer] at h
  split at h
  · simp only [Except.ok.injEq] at h
    subst h
    exact ⟨hx.send hk, rfl, rfl, sent_send .., fun _ _ => Sent.send⟩
  · rename_i hv
    simp only [Except.ok.injEq] at h
    subst h
    split at hv
    · cases hv
    · rename_i e he
      exact ⟨hx, rfl, rfl, sent_of_skip he (hx.pending key e · he) hv, fun _ _ h => h⟩
  · cases h

/-- A stack that is offered to several edges was sent along all of them. -/
theorem offers_spec {origin : Nat} {targets : List Nat} (h : targets.foldlM (fun t j => t.offer test (origin, j)) t = .ok t')
    (hx : t.Explored g current) (hk : ∀ j ∈ targets, g.Holds t.state j t.state.stack) :
    t'.Explored g current ∧ t'.state = t.state ∧ t'.depths = t.depths ∧
      (∀ j ∈ targets, t'.Sent (origin, j) t.state.stack.outline) ∧ ∀ k d, t.Sent k d → t'.Sent k d := by
  induction targets generalizing t with
  | nil =>
    simp only [List.foldlM_nil, pure_eq_ok] at h
    subst h
    exact ⟨hx, rfl, rfl, fun j hj => (by cases hj), fun _ _ h => h⟩
  | cons j targets ih =>
    simp only [List.foldlM_cons, bind_eq_ok] at h
    obtain ⟨mid, ho, h⟩ := h
    obtain ⟨hx', hs, hd, hsent, hkeep⟩ := offer_spec ho hx (hk j (by simp))
    obtain ⟨hx'', hs', hd', hall, hkeep'⟩ := ih h hx' fun j' hj' => hs ▸ hk j' (by simp [hj'])
    refine ⟨hx'', hs'.trans hs, hd'.trans hd, ?_, fun k d hkd => hkeep' k d (hkeep k d hkd)⟩
    intro j' hj'
    rcases List.mem_cons.mp hj' with rfl | hj'
    · exact hkeep' _ _ hsent
    · exact hs ▸ hall j' hj'

/-! ## One task -/

/-- An edge that is followed keeps its history. -/
theorem edges_arrive (t : Traversal State) (edge : Option (Nat × Nat)) (k : Nat × Nat) :
    ((t.arrive edge).edges[k]?).map Edge.history = (t.edges[k]?).map Edge.history ∧
      ∀ e p, (t.arrive edge).edges[k]? = some e → e.pending = some p → t.edges[k]? = some e := by
  cases edge with
  | none => exact ⟨rfl, fun e p he _ => he⟩
  | some key =>
    simp only [arrive, Std.TreeMap.getElem?_modify, edgeOrder_eq]
    split
    · rename_i hk
      subst hk
      refine ⟨by rw [Option.map_map]; rfl, fun e p he hp => ?_⟩
      obtain ⟨e', -, rfl⟩ := Option.map_eq_some_iff.mp he
      cases hp
    · exact ⟨rfl, fun e p he _ => he⟩

/-- The history of an edge is the same before and after it is followed. -/
theorem history_arrive {edge : Option (Nat × Nat)} {k : Nat × Nat} {p : List Stack → Prop} :
    (∃ e : Edge, (t.arrive edge).edges[k]? = some e ∧ p e.history) ↔ ∃ e : Edge, t.edges[k]? = some e ∧ p e.history := by
  have h := (edges_arrive t edge k).1
  have hmap : ∀ o : Option Edge, (∃ e, o = some e ∧ p e.history) ↔ ∃ hs, o.map Edge.history = some hs ∧ p hs := by
    intro o
    cases o <;> simp
  rw [hmap, hmap, h]

/-- Taking up a task does not change what is left to be done, nor the state. -/
theorem arrive_tasks {S : Type} (t : Traversal S) (edge : Option (Nat × Nat)) (rest : List Task) :
    ({ t with tasks := rest } : Traversal S).arrive edge =
      { state := t.state, depths := t.depths, edges := (t.arrive edge).edges, tasks := rest } := by
  cases edge <;> rfl

/-- The state from which a task is followed. -/
theorem Explored.begin {task : Task} {rest : List Task} (hx : t.Explored g current) (htasks : t.tasks = task :: rest) :
    g.Holds (t.state.withStack task.stack) task.target task.stack ∧ Changes m shares t.state (t.state.withStack task.stack) := by
  have htask := hx.tasks task (by simp [htasks])
  have hch : Change m shares t.state (t.state.withStack task.stack) := .stack task.stack
  have hc := hch.coherent hx.coherent
  have he := hch.extends hx.coherent
  exact ⟨⟨hc, g.withStack _ htask.sound, he.stackKnown htask.known, g.mono htask.admits he hx.coherent hc htask.known⟩, .single hch⟩

/-- After a task was taken up and control followed to where it divides, all is as it was but for that task. -/
theorem Explored.walked {task : Task} {rest : List Task} {halt : Lowering.Halt State} (hx : t.Explored g fun _ _ => False)
    (htasks : t.tasks = task :: rest)
    (hwalk : Lowering.walk m task.target (m.code.drop task.target) (t.state.withStack task.stack) t.depths = .ok halt) :
    let mid : Traversal State := { state := halt.state, depths := halt.depths, edges := (t.arrive task.edge).edges, tasks := rest }
    mid.Explored g (fun i stack => i = task.target ∧ stack = task.stack) ∧ (∀ j ∈ halt.targets, g.Holds halt.state j halt.state.stack) ∧
      Followed m shares halt.state halt.depths halt.origin halt.state.stack halt.targets task.target task.stack := by
  intro mid
  obtain ⟨hg, hch₀⟩ := hx.begin htasks
  obtain ⟨hch₁, hkeep, hsound, hk, hfol, hadm⟩ := Lowering.walk_spec hwalk rfl hg hx.size
  have hch : Changes m shares t.state halt.state := hch₀.trans hch₁
  have hc := hch.coherent hx.coherent
  have he := hch.extends hx.coherent
  have hsent : ∀ key d, t.Sent key d → mid.Sent key d := fun key d =>
    (history_arrive (p := fun hs => ∃ stack ∈ hs, Stack.outline stack = d)).mpr
  have held : ∀ {i : Nat} {stack : Stack}, g.Holds t.state i stack → g.Holds halt.state i stack := fun h =>
    ⟨hc, hsound, he.stackKnown h.known, g.mono h.admits he hx.coherent hc h.known⟩
  refine ⟨⟨hc, hch.settled hx.coherent hx.settled, hx.fit.extends he, hsound, hkeep.1.trans hx.size, ?_, ?_, ?_, ?_⟩,
    fun j hj => ⟨hc, hsound, hk, hadm j hj⟩, hfol⟩
  · intro task' ht'
    exact held (hx.tasks task' (by rw [htasks]; exact List.mem_cons_of_mem _ ht'))
  · intro key e p hke hp
    exact hx.pending key e p ((edges_arrive t task.edge key).2 e p hke hp) hp
  · intro key e stack hke hmem
    obtain ⟨e', he', hmem'⟩ := (history_arrive (p := (stack ∈ ·))).mp ⟨e, hke, hmem⟩
    exact held (hx.histories key e' stack he' hmem')
  · intro i stack hawait
    have old : t.Awaited m i stack := by
      rcases hawait with hroot | ⟨origin, hedge⟩
      · refine Or.inl (hroot.imp_right ?_)
        rintro ⟨l, hl, hi, hs⟩
        exact ⟨l, hl, hi, by rw [hs, he.handlerEntry?]⟩
      · exact Or.inr ⟨origin, (history_arrive (p := (stack ∈ ·))).mp hedge⟩
    rcases hx.followed i stack old with ⟨task', ht', h'⟩ | ha | hfalse
    · rw [htasks] at ht'
      rcases List.mem_cons.mp ht' with rfl | ht'
      · exact Or.inr (Or.inr ⟨h'.1.symm, h'.2.symm⟩)
      · exact Or.inl ⟨task', ht', h'⟩
    · exact Or.inr (Or.inl (ha.mono he hx.coherent hc hkeep hsent))
    · exact hfalse.elim

/-- Following a task leaves nothing of it to be done. -/
theorem follow_spec {task : Task} {rest : List Task} (h : follow test m { t with tasks := rest } task = .ok t')
    (htasks : t.tasks = task :: rest) (hx : t.Explored g fun _ _ => False) : t'.Explored g fun _ _ => False := by
  simp only [follow, bind_eq_ok] at h
  obtain ⟨halt, hwalk, h⟩ := h
  rw [arrive_tasks] at hwalk h
  obtain ⟨hmid, hg, hfol⟩ := hx.walked htasks hwalk
  obtain ⟨hx', hs, hd, hsent, -⟩ := offers_spec h hmid hg
  refine { hx' with followed := fun i stack hawait => ?_ }
  rcases hx'.followed i stack hawait with htask | ha | ⟨rfl, rfl⟩
  · exact Or.inl htask
  · exact Or.inr (Or.inl ha)
  · refine Or.inr (Or.inl ⟨halt.origin, halt.state.stack, halt.targets, ?_, hsent⟩)
    rw [hs, hd]
    exact hfol

/-! ## All tasks -/

theorem run_spec {fuel : Nat} (h : run test m fuel t = .ok t') (hx : t.Explored g fun _ _ => False) :
    (t'.Explored g fun _ _ => False) ∧ t'.tasks = [] := by
  induction fuel generalizing t with
  | zero => cases h
  | succ fuel ih =>
    rw [run] at h
    split at h
    · rename_i hnil
      cases h
      exact ⟨hx, hnil⟩
    · rename_i task rest htasks
      simp only [bind_eq_ok] at h
      obtain ⟨mid, hf, hrun⟩ := h
      exact ih hrun (follow_spec hf htasks hx)

end Traversal
end ThreeAddress
