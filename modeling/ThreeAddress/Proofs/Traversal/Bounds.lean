import Mathlib.Algebra.BigOperators.Fin
import Mathlib.Algebra.Order.BigOperators.Group.Finset
import Mathlib.Data.Fintype.Card
import ThreeAddress.Proofs.Traversal.Depths
import ThreeAddress.Proofs.Traversal.Runs

/-!
# Bounds

How much there is to visit. No instruction produces two operands, and no stack is deeper than the instructions on its way account for. So
there are finitely many stacks, each is sent along an edge once, and the tasks done and waiting never exceed `Method.taskBound`.
-/

namespace ThreeAddress

open State

/-! ## One operand for each instruction -/

namespace State

variable {m : Method} {s : State} {o p : OperandId}

/-- No instruction produces two operands. -/
theorem Coherent.operand_unique (h : s.Coherent m) (hk : s.Known o) (hk' : s.Known p) (he : (s.operand o).insn = (s.operand p).insn) :
    o = p := by
  -- An instruction with a result is no label of a handler with an entry of its own.
  have apart : ∀ {i : Nat} {q : OperandId} {e : HandlerEntry}, (s.frame i).out = some q → s.handlerEntry? i = some e → False := by
    intro i q e hout hentry
    obtain ⟨-, -, -, -, here⟩ := h.entry i e hentry
    cases h.stage i (List.getElem?_eq_some_iff.mp here).1 with
    | untouched out | shared _ _ out => simp [hout] at out
    | result built | statement built =>
      obtain rfl := Option.some.inj (here.symm.trans built.here)
      cases built.effect
    | caught _ _ entry => simp [hentry] at entry
  rcases h.owned o hk with ho | ⟨e, hentry, rfl⟩ <;> rcases h.owned p hk' with hp | ⟨e', hentry', rfl⟩
  · rw [he, hp, Option.some.injEq] at ho
    exact ho.symm
  · exact (apart (he ▸ ho) hentry').elim
  · exact (apart hp (he ▸ hentry)).elim
  · rw [he, hentry', Option.some.injEq] at hentry
    rw [hentry]

/-- There are at most as many operands as instructions. -/
theorem Coherent.size_operands_le (h : s.Coherent m) : s.operands.size ≤ m.code.length := by
  let produced : Fin s.operands.size → Fin m.code.length := fun k => ⟨(s.operand ⟨k⟩).insn, h.owner (o := ⟨k⟩) k.isLt⟩
  have inj : Function.Injective produced := by
    intro k k' heq
    have := h.operand_unique (o := ⟨k⟩) (p := ⟨k'⟩) k.isLt k'.isLt (Fin.mk.inj heq)
    exact Fin.ext (OperandId.mk.inj this)
  simpa using Fintype.card_le_of_injective produced inj

end State

/-! ## Depths -/

namespace Method

variable {m : Method} {depths depths' : Array (Option Nat)}

/-- The depth to which the instructions visited so far can have raised a stack, each of them once. -/
def depthBy (m : Method) (depths : Array (Option Nat)) : Nat :=
  1 + ∑ j : Fin m.code.length, if (depths[(j : Nat)]?.join).isSome then growth m.code[j] else 0

theorem depthBy_le (m : Method) (depths : Array (Option Nat)) : m.depthBy depths ≤ m.depthBound := by
  have total : ∀ ops : List Operation, ops.foldr (growth · + ·) 1 = 1 + (ops.map growth).sum := by
    intro ops
    induction ops with
    | nil => rfl
    | cons op ops ih =>
      rw [List.foldr_cons, ih, List.map_cons, List.sum_cons]
      omega
  have all : ∑ j : Fin m.code.length, growth m.code[j] = (m.code.map growth).sum := by
    exact Fin.sum_univ_fun_getElem m.code growth
  rw [depthBy, depthBound, total, ← all]
  refine Nat.add_le_add_left (Finset.sum_le_sum fun j _ => ?_) 1
  split
  · exact Nat.le_refl _
  · exact Nat.zero_le _

theorem depthBy_mono (h : Lowering.DepthsKeep depths depths') : m.depthBy depths ≤ m.depthBy depths' := by
  refine Nat.add_le_add_left (Finset.sum_le_sum fun j _ => ?_) 1
  split
  · rename_i hj
    obtain ⟨d, hd⟩ := Option.isSome_iff_exists.mp hj
    rw [h.2 j d hd]
    exact Nat.le_refl _
  · exact Nat.zero_le _

/-- No depth and nothing that its instruction may add to it is more than the instructions visited so far account for. -/
def DepthsAccounted (m : Method) (depths : Array (Option Nat)) : Prop :=
  ∀ (i : Nat) (op : Operation) (d : Nat), m.code[i]? = some op → depths[i]?.join = some d → d + growth op ≤ m.depthBy depths

/-- A depth that passes the check is accounted for together with what the instruction may add to it. -/
theorem DepthsAccounted.checkDepth {i d : Nat} {op : Operation} (h : m.DepthsAccounted depths) (here : m.code[i]? = some op)
    (hsize : depths.size = m.code.length) (hd : d ≤ m.depthBy depths) (hcheck : Lowering.checkDepth depths i d = .ok depths') :
    m.DepthsAccounted depths' ∧ d + growth op ≤ m.depthBy depths' := by
  obtain ⟨hlt, rfl⟩ := List.getElem?_eq_some_iff.mp here
  obtain ⟨hkeep, hself⟩ := Lowering.checkDepth_spec hcheck (hsize ▸ hlt)
  have others : ∀ j, j ≠ i → depths'[j]?.join = depths[j]?.join := fun j hj => Lowering.checkDepth_of_ne hcheck hj
  have known : d + growth m.code[i] ≤ m.depthBy depths' := by
    cases hi : depths[i]?.join with
    | some e =>
      have hed := hkeep.2 i e hi
      rw [hself, Option.some.injEq] at hed
      subst hed
      exact (h i _ d here hi).trans (depthBy_mono hkeep)
    | none =>
      -- The first visit adds what the instruction accounts for.
      have more : m.depthBy depths + growth m.code[i] ≤ m.depthBy depths' := by
        have split : ∑ j : Fin m.code.length, (if (depths[(j : Nat)]?.join).isSome then growth m.code[j] else 0) + growth m.code[i] =
            ∑ j : Fin m.code.length, ((if (depths[(j : Nat)]?.join).isSome then growth m.code[j] else 0) +
              if j = ⟨i, hlt⟩ then growth m.code[i] else 0) := by
          rw [Finset.sum_add_distrib, Finset.sum_ite_eq' Finset.univ, if_pos (Finset.mem_univ _)]
        rw [depthBy, Nat.add_assoc, split]
        refine Nat.add_le_add_left (Finset.sum_le_sum fun j _ => ?_) 1
        by_cases hj : j = ⟨i, hlt⟩
        · subst hj
          simp [hi, hself]
        · rw [if_neg hj, others j fun h => hj (Fin.ext h), Nat.add_zero]
      omega
  refine ⟨fun j op e here' he => ?_, known⟩
  by_cases hj : j = i
  · subst hj
    rw [hself, Option.some.injEq] at he
    obtain rfl := Option.some.inj (here.symm.trans here')
    exact he ▸ known
  · rw [others j hj] at he
    exact (h j op e here' he).trans (depthBy_mono hkeep)

end Method

variable {m : Method} {shares : Bool} {s : State} {depths : Array (Option Nat)} {i : Nat} {op : Operation} {before after : Stack}

/-- An operation raises the stack by no more than it accounts for. -/
theorem Passed.length_le (h : Passed m shares s depths i op before after) : after.length ≤ before.length + Method.growth op := by
  cases hk : op.stackEffect with
  | some k =>
    have heffect := h.effect k hk
    have hgrowth : Method.growth op = k.toNat := by
      cases op with
      | label => cases hk
      | _ => simp [Method.growth, hk]
    omega
  | none =>
    cases h.visit with
    | plain plain performed =>
      cases op with
      | throw =>
        have hlen := length_of_popOperands performed.pop
        rw [(performed.leaves.statement rfl).2]
        omega
      | label | unhandled => cases plain
      | shuffle how => cases how <;> cases hk
      | _ => cases hk
    | shuffle => rename_i how _ _; cases how <;> cases hk
    | line => cases hk
    | label _ same => simp [same]
    | caught _ _ _ pushed => simp [pushed, Method.growth]

namespace Lowering

/-- A walk keeps depths accounted for. -/
theorem accounted_of_walk {g : Guide m shares} {ops : List Operation} {halt : Halt State} (h : walk m i ops s depths = .ok halt)
    (hops : m.code.drop i = ops) (hg : g.Holds s i s.stack) (hsize : depths.size = m.code.length) (ha : m.DepthsAccounted depths)
    (hd : s.stack.length ≤ m.depthBy depths) :
    m.DepthsAccounted halt.depths ∧ halt.state.stack.length ≤ m.depthBy halt.depths := by
  induction ops generalizing i s depths with
  | nil =>
    simp only [walk, Except.ok.injEq] at h
    subst h
    exact ⟨ha, hd⟩
  | cons op ops ih =>
    obtain ⟨here, hrest⟩ := Method.here_of_drop hops
    simp only [walk, bind_eq_ok] at h
    obtain ⟨mid, hcheck, ⟨⟨⟩, t⟩, hop, ⟨⟩, hf, e, he, h⟩ := h
    obtain ⟨-, hkeep, hpassed, -, hnext⟩ := passed_of_visit hop hg here hcheck hsize hf
    obtain ⟨ha', hgrown⟩ := ha.checkDepth here hsize hd hcheck
    have hd' : t.stack.length ≤ m.depthBy mid := hpassed.length_le.trans hgrown
    cases e with
    | some targets =>
      cases h
      exact ⟨ha', hd'⟩
    | none => exact ih h hrest (hnext _ ((leads_of_straight he).mpr rfl)) (hkeep.1.trans hsize) ha' hd'

/-- Control goes from an operation to operations of the code, and the operation has a fixed effect. -/
theorem inside_of_exits {targets : List Nat} {j : Nat} (h : exits m i op = .ok (some targets)) (hj : j ∈ targets) :
    j < m.code.length ∧ ∃ k, op.stackEffect = some k := by
  have label : ∀ {l : Label} {j : Nat}, m.labelIndex? l = some j → j < m.code.length := fun hl =>
    (List.getElem?_eq_some_iff.mp (Method.here_of_labelIndex? hl)).1
  have leads := (leads_of_exits h).1 j hj
  cases op with
  | «return» | throw => exact leads.elim
  | branch kind operands way target =>
    refine ⟨?_, _, rfl⟩
    simp only [exits, bind_eq_ok, pure_eq_ok, labelIndex_eq_ok, Option.some.injEq] at h
    obtain ⟨t, ht, rfl⟩ := h
    rcases List.mem_append.mp hj with hj | hj
    · split at hj
      · rw [List.mem_singleton.mp hj]
        assumption
      · cases hj
    · rw [List.mem_singleton.mp hj]
      exact label ht
  | jump target => exact ⟨label leads, _, rfl⟩
  | «switch» default cases =>
    obtain ⟨l, -, hl⟩ := leads
    exact ⟨label hl, _, rfl⟩
  | _ => cases h

end Lowering

/-! ## Stacks on their way -/

/-- A stack leaves an operation for another. Its depth is what the operation makes of the depth that is fixed there. -/
structure Departs (m : Method) (depths : Array (Option Nat)) (key : Nat × Nat) (stack : Stack) : Prop where
  target : key.2 < m.code.length
  depth : ∃ (op : Operation) (d : Nat) (k : Int), m.code[key.1]? = some op ∧ depths[key.1]?.join = some d ∧ op.stackEffect = some k ∧
    (stack.length : Int) = d + k
  shallow : stack.length ≤ m.depthBy depths

theorem Departs.mono {depths' : Array (Option Nat)} {key : Nat × Nat} {stack : Stack} (h : Departs m depths key stack)
    (hd : Lowering.DepthsKeep depths depths') : Departs m depths' key stack := by
  obtain ⟨op, d, k, here, hdepth, hk, hlen⟩ := h.depth
  exact ⟨h.target, ⟨op, d, k, here, hd.2 _ _ hdepth, hk, hlen⟩, h.shallow.trans (Method.depthBy_mono hd)⟩

/-- All stacks that leave along one edge are of one depth. -/
theorem Departs.length_eq {key : Nat × Nat} {a b : Stack} (h : Departs m depths key a) (h' : Departs m depths key b) :
    a.length = b.length := by
  obtain ⟨op, d, k, here, hdepth, hk, hlen⟩ := h.depth
  obtain ⟨op', d', k', here', hdepth', hk', hlen'⟩ := h'.depth
  obtain rfl := Option.some.inj (here.symm.trans here')
  rw [hdepth, Option.some.injEq] at hdepth'
  rw [hk, Option.some.injEq] at hk'
  omega

/-- What was followed leaves the operation at which control divides. -/
theorem Followed.departs {origin j : Nat} {final : Stack} {targets : List Nat}
    (h : Followed m shares s depths origin final targets i before) (hj : j ∈ targets) (hd : final.length ≤ m.depthBy depths) :
    Departs m depths (origin, j) final := by
  induction h with
  | fallen none => simp [none] at hj
  | ended passed exits =>
    obtain ⟨hlt, k, hk⟩ := Lowering.inside_of_exits exits hj
    exact ⟨hlt, ⟨_, _, k, passed.here, passed.depth, hk, passed.effect k hk⟩, hd⟩
  | straight _ _ _ ih => exact ih

namespace Traversal

/-- The stacks sent along edges so far, each once, and the tasks done and waiting after as many tasks. -/
structure Counted (m : Method) (n : Nat) (t : Traversal State) (sent : List ((Nat × Nat) × Stack)) : Prop where
  nodup : sent.Nodup
  mem : ∀ key stack, (key, stack) ∈ sent ↔ ∃ e : Edge, t.edges[key]? = some e ∧ stack ∈ e.history
  once : ∀ (key : Nat × Nat) (e : Edge), t.edges[key]? = some e → e.history.Nodup
  tasks : n + t.tasks.length ≤ m.handlerLabels.length + 1 + sent.length
  departs : ∀ p ∈ sent, Departs m t.depths p.1 p.2
  known : ∀ p ∈ sent, t.state.StackKnown p.2
  accounted : m.DepthsAccounted t.depths
  shallow : ∀ task ∈ t.tasks, task.stack.length ≤ m.depthBy t.depths

variable {g : Guide m shares} {test : EdgeTest} {t t' : Traversal State} {n : Nat} {sent : List ((Nat × Nat) × Stack)}

/-- One more stack is sent. -/
theorem Counted.send {key : Nat × Nat} {stack : Stack} (h : Counted m n t sent) (unsent : ∀ e, t.edges[key]? = some e → stack ∉ e.history)
    (hd : Departs m t.depths key stack) (hk : t.state.StackKnown stack) : Counted m n (t.send key stack) ((key, stack) :: sent) where
  nodup := by
    refine List.nodup_cons.mpr ⟨fun hmem => ?_, h.nodup⟩
    obtain ⟨e, he, hmem⟩ := (h.mem key stack).mp hmem
    exact unsent e he hmem
  mem k b := by
    rw [edges_send, List.mem_cons, Prod.mk.injEq, h.mem]
    split
    · rename_i hkey
      subst hkey
      simp only [Option.some.injEq, exists_eq_left', List.mem_append, List.mem_singleton, true_and]
      cases he : t.edges[key]? with
      | none => simp [default, instInhabitedEdge.default]
      | some e => simp [or_comm]
    · rename_i hkey
      simp [Ne.symm hkey]
  once k e he := by
    rw [edges_send] at he
    split at he
    · rename_i hkey
      simp only [Option.some.injEq] at he
      subst hkey he
      cases hold : t.edges[key]? with
      | none => simp [default, instInhabitedEdge.default]
      | some e =>
        have hnot := unsent e hold
        rw [Option.getD_some]
        exact List.nodup_append.mpr ⟨h.once key e hold, List.nodup_singleton stack, by
          rintro a ha b hb rfl
          exact hnot (List.mem_singleton.mp hb ▸ ha)⟩
    · exact h.once k e he
  tasks := by
    have := h.tasks
    simp only [Traversal.send, List.length_cons]
    omega
  departs p hp := by
    rcases List.mem_cons.mp hp with rfl | hp
    · exact hd
    · exact h.departs p hp
  known p hp := by
    rcases List.mem_cons.mp hp with rfl | hp
    · exact hk
    · exact h.known p hp
  accounted := h.accounted
  shallow task ht := by
    rcases List.mem_cons.mp ht with rfl | ht
    · exact hd.shallow
    · exact h.shallow task ht

/-- One more task is done, and control was followed from it to where it divides. -/
theorem Counted.halted {task : Task} {rest : List Task} {halt : Lowering.Halt State} (h : Counted m n t sent) (next : t.tasks = task :: rest)
    (he : t.state.Extends halt.state) (hd : Lowering.DepthsKeep t.depths halt.depths) (ha : m.DepthsAccounted halt.depths) :
    Counted m (n + 1) (t.halted task rest halt) sent where
  nodup := h.nodup
  mem key stack := by
    rw [h.mem]
    exact (history_arrive (p := (stack ∈ ·))).symm
  once key e hke := by
    obtain ⟨e', he', hnodup⟩ := (history_arrive (p := fun hs => hs = e.history)).mp ⟨e, hke, rfl⟩
    exact hnodup ▸ h.once key e' he'
  tasks := by
    have := h.tasks
    rw [next, List.length_cons] at this
    simp only [Traversal.halted]
    omega
  departs p hp := (h.departs p hp).mono hd
  known p hp := he.stackKnown (h.known p hp)
  accounted := ha
  shallow task' ht := (h.shallow task' (by rw [next]; exact List.mem_cons_of_mem _ ht)).trans (Method.depthBy_mono hd)

/-- After every number of tasks the stacks sent along edges account for the tasks done and waiting. -/
theorem After.counted (h : After test m n t) : ∃ sent, Counted m n t sent := by
  induction h with
  | start started =>
    obtain ⟨hedges, hdepths, htasks, hall⟩ := start_eq_ok started
    refine ⟨[], List.nodup_nil, by simp [hedges], by simp [hedges], by simpa using htasks, by simp, by simp, ?_, fun task ht => ?_⟩
    · intro i op d _ hd
      rw [hdepths, Array.getElem?_replicate] at hd
      split at hd <;> cases hd
    · exact (hall task ht).2.trans (Nat.le_add_right 1 _)
  | @follow n t t' task rest before next followed ih =>
    obtain ⟨sent, hcount⟩ := ih
    have hx := before.explored (Guide.free_begins m)
    obtain ⟨halt, hwalk, hoffers⟩ := follow_eq_ok.mp followed
    obtain ⟨hg, hch₀⟩ := hx.begin next
    obtain ⟨hch₁, hkeep, -, hk, hfol, -⟩ := Lowering.walk_spec hwalk rfl hg hx.size
    obtain ⟨ha, hdeep⟩ := Lowering.accounted_of_walk hwalk rfl hg hx.size hcount.accounted
      (hcount.shallow task (by rw [next]; exact List.mem_cons_self))
    have hmid := hcount.halted next (Changes.extends (hch₀.trans hch₁) hx.coherent) hkeep ha
    refine (offers_keep hoffers (I := fun u => u.state = halt.state ∧ u.depths = halt.depths ∧ ∃ sent, Counted m (n + 1) u sent)
      ⟨rfl, rfl, sent, hmid⟩ ?_).2.2
    rintro u j hj ⟨hs, hd, sent', hu⟩ unsent
    refine ⟨hs, hd, _, hu.send unsent ?_ ?_⟩
    · rw [hs, hd]
      exact hfol.departs hj hdeep
    · rw [hs]
      exact hk

/-! ## How many stacks there are -/

/-- A word as a digit: the number of its operand, or zero for the half of a wide value. -/
def digit (bound : Nat) : Word → Fin (bound + 1)
  | .wideHalf => 0
  | .operand o => Fin.ofNat (bound + 1) (o.index + 1)

theorem digit_inj {bound : Nat} {v w : Word} (hv : ∀ o, v = .operand o → o.index < bound) (hw : ∀ o, w = .operand o → o.index < bound)
    (h : digit bound v = digit bound w) : v = w := by
  have small : ∀ {o : OperandId}, o.index < bound → (digit bound (.operand o)).val = o.index + 1 := fun ho =>
    Nat.mod_eq_of_lt (Nat.succ_lt_succ ho)
  cases v with
  | wideHalf =>
    cases w with
    | wideHalf => rfl
    | operand p =>
      have := congrArg Fin.val h
      rw [small (hw p rfl)] at this
      simp [digit] at this
  | operand o =>
    cases w with
    | wideHalf =>
      have := congrArg Fin.val h
      rw [small (hv o rfl)] at this
      simp [digit] at this
    | operand p =>
      have := congrArg Fin.val h
      rw [small (hv o rfl), small (hw p rfl)] at this
      obtain ⟨o⟩ := o
      obtain ⟨p⟩ := p
      simp only [Nat.add_right_cancel_iff] at this
      rw [this]

/-- An edge and a stack as numbers: the ends of the edge, and the digits of the stack. -/
def place (m : Method) (p : (Nat × Nat) × Stack) : (Nat × Nat) × (Fin m.depthBound → Fin (m.code.length + 1)) :=
  (p.1, fun j => (p.2[(j : Nat)]?).elim 0 (digit m.code.length))

/-- Stacks that were sent along edges are told apart by their places. -/
theorem Counted.place_inj (h : Counted m n t sent) (hc : t.state.Coherent m) {p q : (Nat × Nat) × Stack} (hp : p ∈ sent) (hq : q ∈ sent)
    (heq : place m p = place m q) : p = q := by
  obtain ⟨key, a⟩ := p
  obtain ⟨key', b⟩ := q
  simp only [place, Prod.mk.injEq] at heq
  obtain ⟨rfl, hdigits⟩ := heq
  have hlen : a.length = b.length := (h.departs (key, a) hp).length_eq (h.departs (key, b) hq)
  have small : ∀ {stack : Stack}, (key, stack) ∈ sent → ∀ w ∈ stack, ∀ o, w = .operand o → o.index < m.code.length := by
    rintro stack hmem w hw o rfl
    exact Nat.lt_of_lt_of_le (h.known _ hmem o hw) hc.size_operands_le
  refine Prod.ext rfl (List.ext_getElem hlen fun j hj hj' => ?_)
  have hbound : j < m.depthBound := Nat.lt_of_lt_of_le hj ((h.departs _ hp).shallow.trans (m.depthBy_le _))
  have hdigit := congrFun hdigits ⟨j, hbound⟩
  simp only [List.getElem?_eq_getElem hj, List.getElem?_eq_getElem hj', Option.elim_some] at hdigit
  exact digit_inj (small hp _ (List.getElem_mem hj)) (small hq _ (List.getElem_mem hj')) hdigit

/-- There are not many stacks that can be sent along edges. -/
theorem Counted.length_le (h : Counted m n t sent) (hc : t.state.Coherent m) :
    sent.length ≤ m.code.length * m.code.length * (m.code.length + 1) ^ m.depthBound := by
  let L := m.code.length
  let places := (Finset.range L ×ˢ Finset.range L) ×ˢ (Finset.univ : Finset (Fin m.depthBound → Fin (L + 1)))
  have hcard : places.card = L * L * (L + 1) ^ m.depthBound := by simp [places]
  rw [← List.toFinset_card_of_nodup h.nodup]
  refine (Finset.card_le_card_of_injOn (place m) (fun p hp => ?_) fun p hp q hq => ?_).trans (Nat.le_of_eq hcard)
  · have hmem := List.mem_toFinset.mp hp
    obtain ⟨op, -, -, here, -⟩ := (h.departs p hmem).depth
    simp only [places, Finset.mem_coe, Finset.mem_product, Finset.mem_range, Finset.mem_univ, and_true]
    exact ⟨(List.getElem?_eq_some_iff.mp here).1, (h.departs p hmem).target⟩
  · exact h.place_inj hc (List.mem_toFinset.mp hp) (List.mem_toFinset.mp hq)

/-- The tasks done and waiting never exceed the bound. -/
theorem After.tasks_le (h : After test m n t) : n + t.tasks.length ≤ m.taskBound := by
  obtain ⟨sent, hcount⟩ := h.counted
  have hlen := hcount.length_le (h.explored (Guide.free_begins m)).coherent
  exact hcount.tasks.trans (Nat.add_le_add_left hlen _)

end Traversal
end ThreeAddress
