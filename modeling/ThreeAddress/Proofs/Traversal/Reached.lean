import ThreeAddress.Lowering
import ThreeAddress.Proofs.Traversal.Explored

/-!
# What control reaches

When nothing is left to be followed, control was followed from its beginnings and through every operation on to all that it leads to. Every
operation that control can reach was visited.
-/

namespace ThreeAddress

open State

/-! ## The beginning -/

/-- A guide is followed at the outset, by states without visits and wherever control begins. -/
structure Guide.Begins {m : Method} {shares : Bool} (g : Guide m shares) : Prop where
  sound : ∀ s : State, s.Blank m → g.sound s
  admits : ∀ (s : State) (i : Nat) (stack : Stack), s.Blank m → Root m s i stack → g.admits s i stack

theorem Guide.free_begins (m : Method) : (Guide.free m).Begins :=
  ⟨fun _ _ => trivial, fun _ _ _ _ _ => trivial⟩

namespace Traversal

variable {m : Method} {shares : Bool} {g : Guide m shares} {test : EdgeTest} {t t' : Traversal State}

/-- Every operand with which control begins exists. -/
theorem known_of_root {s : State} {i : Nat} {stack : Stack} (hb : s.Blank m) (h : Root m s i stack) : s.StackKnown stack := by
  rcases h with ⟨-, rfl⟩ | ⟨l, -, hi, rfl⟩
  · intro o ho
    cases ho
  · intro o ho
    simp only [Option.mem_toList, Option.map_eq_some_iff, Word.operand.injEq] at ho
    obtain ⟨e, he, rfl⟩ := ho
    exact (hb.operand e (mem_of_find_entry he).1).1

/-- No edge was used yet, and every beginning is a task. -/
theorem explored_of_blank {s : State} {tasks : List Task} (hg : g.Begins) (hb : s.Blank m)
    (htasks : ∀ task ∈ tasks, Root m s task.target task.stack)
    (hroots : ∀ i stack, Root m s i stack → (∃ task ∈ tasks, task.target = i ∧ task.stack = stack) ∨ m.code.length ≤ i) :
    ({ state := s, depths := Array.replicate m.code.length none, edges := {}, tasks } : Traversal State).Explored g fun _ _ => False where
  coherent := hb.coherent
  settled := hb.settled
  fit := hb.fit
  sound := hg.sound s hb
  size := Array.size_replicate
  tasks task ht := ⟨hb.coherent, hg.sound s hb, known_of_root hb (htasks task ht), hg.admits s _ _ hb (htasks task ht)⟩
  pending key e p he := by simp at he
  histories key e stack he := by simp at he
  followed i stack hawait := by
    rcases hawait with hroot | ⟨origin, e, he, -⟩
    · rcases hroots i stack hroot with htask | hbehind
      · exact Or.inl htask
      · exact Or.inr (Or.inl ⟨i, stack, [], .fallen rfl hbehind, fun j hj => (by cases hj)⟩)
    · simp at he

theorem start_spec (h : start m = .ok t) (hg : g.Begins) : t.Explored g fun _ _ => False := by
  simp only [start] at h
  split at h
  · cases h
  · split at h
    · -- There is no code, so that every beginning stands behind it.
      rename_i hempty
      cases h
      have hnil : m.code = [] := by simpa using hempty
      refine explored_of_blank hg (.ofMethod m) (fun task ht => (by cases ht)) fun i stack _ => Or.inr ?_
      simp [hnil]
    · simp only [bind_eq_ok] at h
      obtain ⟨⟨k, s⟩, hentries, handlers, hhandlers, h⟩ := h
      cases h
      have hb := Lowering.addHandlerEntries_spec hentries
      have hall := mapM_eq_ok.mp hhandlers
      have handler : ∀ {l : Label} {task : Task}, handlerTask m s l = .ok task →
          m.labelIndex? l = some task.target ∧
            task.stack = (( s.handlerEntry? task.target).map fun e => .operand e.operand).toList := by
        intro l task hl
        simp only [handlerTask, bind_eq_ok, pure_eq_ok, Lowering.labelIndex_eq_ok] at hl
        obtain ⟨i, hi, rfl⟩ := hl
        exact ⟨hi, rfl⟩
      refine explored_of_blank hg hb ?_ ?_
      · intro task ht
        rcases List.mem_cons.mp ht with rfl | ht
        · exact Or.inl ⟨rfl, rfl⟩
        · obtain ⟨l, hl, htask⟩ := exists_of_forall₂ hall (List.mem_reverse.mp ht)
          exact Or.inr ⟨l, hl, handler htask⟩
      · intro i stack hroot
        left
        rcases hroot with ⟨rfl, rfl⟩ | ⟨l, hl, hi, rfl⟩
        · exact ⟨_, List.mem_cons_self, rfl, rfl⟩
        · obtain ⟨task, htask, hl'⟩ := exists_of_forall₂ hall.flip hl
          obtain ⟨htarget, hstack⟩ := handler hl'
          obtain rfl := Option.some.inj (hi.symm.trans htarget)
          exact ⟨task, List.mem_cons_of_mem _ (List.mem_reverse.mpr htask), rfl, hstack⟩

/-- Nothing is left to be done when the traversal is complete. -/
theorem complete_spec (h : complete test m = .ok t) (hg : g.Begins) : (t.Explored g fun _ _ => False) ∧ t.tasks = [] := by
  simp only [complete, bind_eq_ok] at h
  obtain ⟨t₀, hstart, hrun⟩ := h
  exact run_spec hrun (start_spec hstart hg)

/-- Whatever was awaited has come. -/
theorem arrived_of_awaited {i : Nat} {stack : Stack} (hx : t.Explored g fun _ _ => False) (hn : t.tasks = [])
    (h : t.Awaited m i stack) : t.Arrived m shares i stack := by
  rcases hx.followed i stack h with ⟨task, ht, -⟩ | ha | hfalse
  · rw [hn] at ht
    cases ht
  · exact ha
  · exact hfalse.elim

/-- Control that comes to an operation passes it and goes on to wherever that leads, with words of the kinds that it leaves. Where control
divides, that is a stack that the guide admits; elsewhere it is the one that the operation leaves. -/
theorem Arrived.passed_on {i : Nat} {op : Operation} {before : Stack} (h : t.Arrived m shares i before)
    (hx : t.Explored g fun _ _ => False) (hn : t.tasks = []) (here : m.code[i]? = some op) :
    ∃ after, Passed m shares t.state t.depths i op before after ∧
      ∀ j, m.Leads i op j → j < m.code.length →
        ∃ stack, stack.outline = after.outline ∧ (stack = after ∨ g.admits t.state j stack) ∧ t.Arrived m shares j stack := by
  obtain ⟨origin, final, targets, hf, hsent⟩ := h
  cases hf with
  | fallen _ behind => exact absurd (List.getElem?_eq_some_iff.mp here).1 (Nat.not_lt.mpr behind)
  | ended passed exits =>
    obtain rfl := Option.some.inj (here.symm.trans passed.here)
    refine ⟨final, passed, fun j hj hlt => ?_⟩
    obtain ⟨e, he, stack, hs, houtline⟩ := hsent j ((Lowering.leads_of_exits exits).2 j hj hlt)
    exact ⟨stack, houtline, Or.inr (hx.histories _ e stack he hs).admits, arrived_of_awaited hx hn (Or.inr ⟨i, e, he, hs⟩)⟩
  | straight passed exits rest =>
    obtain rfl := Option.some.inj (here.symm.trans passed.here)
    refine ⟨_, passed, fun j hj _ => ?_⟩
    obtain rfl := (Lowering.leads_of_straight exits).mp hj
    exact ⟨_, rfl, Or.inl rfl, origin, final, targets, rest, hsent⟩

/-- Control that comes to an operation passes it and goes on to wherever that leads, with a stack of the depth that it leaves. -/
theorem Arrived.passed {i : Nat} {op : Operation} {before : Stack} (h : t.Arrived m shares i before)
    (hx : t.Explored g fun _ _ => False) (hn : t.tasks = []) (here : m.code[i]? = some op) :
    ∃ after, Passed m shares t.state t.depths i op before after ∧
      ∀ j, m.Leads i op j → j < m.code.length → ∃ stack, stack.length = after.length ∧ t.Arrived m shares j stack := by
  obtain ⟨after, hp, hnext⟩ := h.passed_on hx hn here
  refine ⟨after, hp, fun j leads hlt => ?_⟩
  obtain ⟨stack, houtline, -, ha⟩ := hnext j leads hlt
  exact ⟨stack, by rw [← stack.length_outline, houtline, after.length_outline], ha⟩

end Traversal

/-- A method is lowered by visiting its code and laying out what that leaves. -/
theorem Method.lower_eq_ok {m : Method} {keepLines : Bool} {b : Body} :
    m.lower keepLines = .ok b ↔ ∃ t, Traversal.complete .pendingFirst m = .ok t ∧ Layout.body m keepLines t.state = .ok b := by
  rw [← bind_eq_ok]
  simp only [lower, lowerBy]
  cases Traversal.complete .pendingFirst m >>= fun t => Layout.body m keepLines t.state <;> simp [Except.mapError]

/-! ## Reachable operations -/

/-- Control can go from an operation to another, in any number of steps. -/
def Method.Flows (m : Method) : Nat → Nat → Prop :=
  Relation.ReflTransGen fun i j => ∃ op, m.code[i]? = some op ∧ m.Leads i op j

/-- Control can come to an operation: from the first one, or from an exception handler. -/
def Method.Reachable (m : Method) (i : Nat) : Prop :=
  ∃ root, (root = 0 ∨ ∃ e ∈ m.exceptions, m.labelIndex? e.handler = some root) ∧ m.Flows root i

/-- Control can come to the label of a handler. -/
theorem Method.reachable_of_handler {m : Method} {l : Label} {i : Nat} (handler : l ∈ m.handlerLabels) (here : m.labelIndex? l = some i) :
    m.Reachable i := by
  obtain ⟨e, he, rfl⟩ := mem_handlerLabels.mp handler
  exact ⟨i, Or.inr ⟨e, he, here⟩, .refl⟩

theorem Method.Reachable.step {m : Method} {i j : Nat} {op : Operation} (h : m.Reachable i) (here : m.code[i]? = some op)
    (leads : m.Leads i op j) : m.Reachable j := by
  obtain ⟨root, hroot, hflows⟩ := h
  exact ⟨root, hroot, hflows.tail ⟨op, here, leads⟩⟩

/-- What some path leads to can be reached. -/
theorem Reaches.reachable {m : Method} {i : Nat} {ws : List Bool} (h : Reaches m i ws) : m.Reachable i := by
  induction h with
  | start => exact ⟨0, Or.inl rfl, .refl⟩
  | step _ here _ leads ih => exact ih.step here leads

/-- The operations to which control may go on from an operation. -/
def Method.successors (m : Method) (i : Nat) : Operation → List Nat
  | .return _ | .throw => []
  | .jump target => (m.labelIndex? target).toList
  | .branch _ _ _ target => (i + 1) :: (m.labelIndex? target).toList
  | .switch default cases => (default :: cases.targets).filterMap m.labelIndex?
  | _ => [i + 1]

theorem Method.mem_successors {m : Method} {i j : Nat} {op : Operation} : j ∈ m.successors i op ↔ m.Leads i op j := by
  cases op with
  | «return» | throw => simp [successors, Leads]
  | jump => simp [successors, Leads]
  | branch => simp [successors, Leads]
  | «switch» => simp only [successors, Leads, List.mem_filterMap, Cases.mem_cons_targets]
  | _ => exact List.mem_singleton

/-- Every operation that control can reach was visited. -/
theorem Traversal.Explored.passed {m : Method} {shares : Bool} {g : Guide m shares} {t : Traversal State} {i : Nat} {op : Operation}
    (hx : t.Explored g fun _ _ => False) (hn : t.tasks = []) (h : m.Reachable i) (here : m.code[i]? = some op) :
    ∃ before after, Passed m shares t.state t.depths i op before after := by
  obtain ⟨root, hroot, hflows⟩ := h
  have arrived : ∃ before, t.Arrived m shares i before := by
    have lt := (List.getElem?_eq_some_iff.mp here).1
    clear here
    induction hflows with
    | refl =>
      rcases hroot with rfl | ⟨e, he, hi⟩
      · exact ⟨[], arrived_of_awaited hx hn (Or.inl (Or.inl ⟨rfl, rfl⟩))⟩
      · exact ⟨_, arrived_of_awaited hx hn (Or.inl (Or.inr ⟨e.handler, Method.mem_handlerLabels.mpr ⟨e, he, rfl⟩, hi, rfl⟩))⟩
    | tail hflows hstep ih =>
      obtain ⟨op', here', leads⟩ := hstep
      obtain ⟨before, ha⟩ := ih (List.getElem?_eq_some_iff.mp here').1
      obtain ⟨after, -, hnext⟩ := ha.passed hx hn here'
      obtain ⟨stack, -, ha'⟩ := hnext _ leads lt
      exact ⟨stack, ha'⟩
  obtain ⟨before, ha⟩ := arrived
  obtain ⟨after, hp, -⟩ := ha.passed hx hn here
  exact ⟨before, after, hp⟩

/-- A loop that counts a local slot down to zero. -/
def Method.countdown : Method :=
  { className := "Sample", name := "run", signature := { params := [], ret := .void }, isStatic := true, maxLocals := 1, maxStack := 1,
    code := [.const (.int 9), .store .int 0, .label ⟨1⟩, .load .int 0, .branch .int .one .le ⟨2⟩, .increment 0 (-1), .jump ⟨1⟩, .label ⟨2⟩,
      .return .void]
    exceptions := [], localNames := [] }

/-- A method with a handler that is jumped to, one that is not, and a label behind all other operations. -/
def Method.sharing : Method :=
  { className := "Sample", name := "run", signature := { params := [], ret := .void }, isStatic := true, maxLocals := 0, maxStack := 1,
    code := [.label ⟨1⟩, .const .null, .jump ⟨3⟩, .label ⟨2⟩, .label ⟨3⟩, .throw, .label ⟨4⟩, .throw, .label ⟨5⟩]
    exceptions := [⟨⟨1⟩, ⟨2⟩, ⟨3⟩, none⟩, ⟨⟨3⟩, ⟨5⟩, ⟨4⟩, some "java.lang.Error"⟩, ⟨⟨1⟩, ⟨4⟩, ⟨3⟩, some "java.lang.Error"⟩]
    localNames := [] }

end ThreeAddress
