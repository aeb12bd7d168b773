import Mathlib.Data.Nat.Find
import Mathlib.Order.Monotone.Defs
import ThreeAddress.Proofs.Layout.Bodies

/-!
# Control flow of a body

The edges of a body are the control flow of its code. The statements of an instruction stand in its run one after the other; each leads to
the next, and the last one leads to the first statements of the instructions to which the instruction itself leads. Since reachable code
does not fall off its end, every reachable instruction has a statement at or behind it.
-/

namespace ThreeAddress

open State

/-- Control never goes from an operation that it can reach to behind the code. -/
def Method.StaysInside (m : Method) : Prop :=
  ∀ i op j, m.Reachable i → m.code[i]? = some op → m.Leads i op j → j < m.code.length

/-- Control stays inside the code if it does not go on behind the last operation. -/
theorem Method.StaysInside.of_getLast {m : Method} (h : ∀ op, m.code.getLast? = some op → op.goesOn = false) : m.StaysInside := by
  intro i op j _ here leads
  rcases leads_iff.mp leads with ⟨hgo, rfl⟩ | ⟨l, -, hl⟩
  · by_contra hlast
    have hi := (List.getElem?_eq_some_iff.mp here).1
    have hget : m.code.getLast? = some op := by
      rw [List.getLast?_eq_getElem?, show m.code.length - 1 = i by omega, here]
    simp [h op hget] at hgo
  · exact (List.getElem?_eq_some_iff.mp (here_of_labelIndex? hl)).1

/-- Control stays inside the code if there is any. -/
theorem Method.StaysInside.lt {m : Method} {i : Nat} (hin : m.StaysInside) (hne : m.code ≠ []) (hr : m.Reachable i) :
    i < m.code.length := by
  obtain ⟨root, hroot, hflows⟩ := hr
  induction hflows with
  | refl =>
    rcases hroot with rfl | ⟨l, -, hl⟩
    · exact List.length_pos_iff.mpr hne
    · exact (List.getElem?_eq_some_iff.mp (here_of_labelIndex? hl)).1
  | tail hflows hstep =>
    obtain ⟨op, here, leads⟩ := hstep
    exact hin _ op _ ⟨root, hroot, hflows⟩ here leads

/-- Control goes on behind an operation that has no statement after it was visited. -/
theorem Visit.goesOn {m : Method} {shares : Bool} {s : State} {i : Nat} {op : Operation} {before after : Stack}
    (h : Visit m shares i before after s op) (hu : s.unit i = []) : op.goesOn = true := by
  cases h with
  | plain _ performed =>
    cases hp : op.pushes with
    | none => exact absurd hu (performed.leaves.statement hp).1
    | some wide => exact Operation.goesOn_of_pushes hp
  | shuffle | line | label | caught => rfl

/-- An operation that has no statement after it was visited names no label. -/
theorem Visit.labels_eq_nil {m : Method} {shares : Bool} {s : State} {i : Nat} {op : Operation} {before after : Stack}
    (h : Visit m shares i before after s op) (hu : s.unit i = []) : op.labels = [] := by
  cases h with
  | plain _ performed =>
    cases hp : op.pushes with
    | none => exact absurd hu (performed.leaves.statement hp).1
    | some wide => exact Operation.labels_of_pushes hp
  | shuffle | line | label | caught => rfl

namespace Layout.Plan

variable {m : Method} {p : Plan} {b : Body} {keepLines : Bool} {i j k q : Nat} {op : Operation} {d : Draft} {located : Located}

/-- The edges of a body are the control flow of the code of a method, where the body is laid out by a plan. -/
structure KeepsFlow (p : Plan) (m : Method) (b : Body) : Prop where
  /-- The statements of an instruction stand in its run, finished and in order. -/
  run : ∀ i, List.Forall₂ (fun q d => ∃ located, b.stmts[q]? = some located ∧ p.finish i d = .ok located.stmt) (p.run i) (p.state.unit i)
  /-- Inside a run every statement leads to the next one alone, and names no target. -/
  inner : ∀ i q located, q ∈ p.run i → q + 1 ∈ p.run i → b.stmts[q]? = some located →
    b.successors q = [q + 1] ∧ located.stmt.targets = []
  /-- The last statement of a run leads to the entries of the instructions to which its own instruction leads. -/
  last : ∀ i op q, m.Reachable i → m.code[i]? = some op → (p.run i).getLast? = some q →
    ∀ t, t ∈ b.successors q ↔ ∃ j, m.Leads i op j ∧ t = p.entry j
  /-- It names the entries of the labels that the operation names, in order. -/
  targets : ∀ i op q located, m.code[i]? = some op → (p.run i).getLast? = some q → b.stmts[q]? = some located →
    List.Forall₂ (fun l t => ∃ j, m.labelIndex? l = some j ∧ t = p.entry j) op.labels located.stmt.targets
  /-- The entry of a shared handler goes to the entry of its label. -/
  handlers : ∀ k e, (sortedEntries p.state)[k]? = some e → ∃ j line, m.labelIndex? e.label = some j ∧
    b.stmts[p.entriesStart + 2 * k + 1]? = some ⟨.goto (p.entry j), line⟩
  /-- The order of instructions, and so of labels, is kept. -/
  monotone : Monotone p.entry
  /-- The entry of an instruction stands in the first run at or behind it that is not empty; if there is none, where a statement that does
  nothing stands for the labels there. -/
  entry : ∀ i, (∃ j, i ≤ j ∧ (∀ k, i ≤ k → k < j → p.run k = []) ∧ (p.run j).head? = some (p.entry i)) ∨
    (∀ k, i ≤ k → p.run k = []) ∧ p.entry i = p.endPosition ∧
      ∀ l, m.code[i]? = some (.label l) → ∃ line, b.stmts[p.endPosition]? = some ⟨.nop, line⟩

/-! ## Runs and entries -/

theorem head?_run : (p.run i).head? = some q ↔ p.state.unit i ≠ [] ∧ q = p.unitStart i := by
  rw [run, List.head?_range', ne_eq, ← List.length_eq_zero_iff]
  split <;> simp_all [eq_comm]

theorem getLast?_run : (p.run i).getLast? = some q ↔ p.state.unit i ≠ [] ∧ q + 1 = p.unitStart i + (p.state.unit i).length := by
  rw [run, List.getLast?_range', ne_eq, ← List.length_eq_zero_iff]
  split
  · simp_all
  · rw [Option.some.injEq]
    omega

/-- The last statement of a run is the finished last statement of the unit. -/
theorem Lays.last (h : p.Lays keepLines b) (hq : (p.run i).getLast? = some q) :
    ∃ d located, (p.state.unit i).getLast? = some d ∧ b.stmts[q]? = some located ∧ p.finish i d = .ok located.stmt := by
  obtain ⟨hne, hlen⟩ := getLast?_run.mp hq
  obtain ⟨d, hd⟩ := Option.isSome_iff_exists.mp (List.getLast?_isSome.mpr hne)
  rw [List.getLast?_eq_getElem?] at hd
  obtain ⟨located, hl, hf⟩ := h.stmt hd
  have hpos := List.length_pos_iff.mpr hne
  rw [show p.unitStart i + ((p.state.unit i).length - 1) = q by omega] at hl
  exact ⟨d, located, by rw [List.getLast?_eq_getElem?, hd], hl, hf⟩

/-- Units without statements take no room. -/
theorem unitStart_eq_of_empty (hij : i ≤ j) (h : ∀ k, i ≤ k → k < j → p.state.unit k = []) : p.unitStart j = p.unitStart i := by
  induction hij with
  | refl => rfl
  | @step j hij ih =>
    rw [unitStart_succ, ih fun k hik hkj => h k hik (Nat.lt_succ_of_lt hkj), h j hij (Nat.lt_succ_self j)]
    rfl

theorem entry_of_not_isTrailing (h : ¬ p.isTrailing i) : p.entry i = p.unitStart i := by
  rw [← position_eq_entry, position, if_neg h]

theorem entry_of_isTrailing (h : p.isTrailing i) : p.entry i = p.endPosition := by
  rw [← position_eq_entry, position, if_pos h]

/-- Where no handler has an entry, an instruction behind all statements has the place behind them for its entry. -/
theorem entry_of_no_entries (h : p.state.handlerEntries = []) (i : Nat) : p.entry i = p.unitStart i := by
  by_cases htr : p.isTrailing i
  · rw [entry_of_isTrailing htr, isTrailing_iff_unitStart.mp htr, endPosition, h]
    rfl
  · exact entry_of_not_isTrailing htr

theorem entry_mono (p : Plan) : Monotone p.entry := by
  intro i j hij
  by_cases hj : p.isTrailing j
  · rw [entry_of_isTrailing hj, ← position_eq_entry, position]
    split
    · exact Nat.le_refl _
    · exact p.unitStart_le_endPosition i
  · have hi : ¬ p.isTrailing i := fun h => hj (isTrailing_iff.mpr fun k hk => isTrailing_iff.mp h k (Nat.le_trans hij hk))
    rw [entry_of_not_isTrailing hi, entry_of_not_isTrailing hj]
    exact p.unitStart_mono hij

/-- An instruction has a statement at or behind it, the first of which is its entry, unless nothing stands there. -/
theorem exists_run_of_not_isTrailing (h : ¬ p.isTrailing i) :
    ∃ j, i ≤ j ∧ (∀ k, i ≤ k → k < j → p.run k = []) ∧ (p.run j).head? = some (p.entry i) := by
  have hex : ∃ j, i ≤ j ∧ p.state.unit j ≠ [] := by
    by_contra hnone
    exact h (isTrailing_iff.mpr fun j hij => by_contra fun hne => hnone ⟨j, hij, hne⟩)
  have hempty : ∀ k, i ≤ k → k < Nat.find hex → p.state.unit k = [] := fun k hik hk =>
    by_contra fun hne => Nat.find_min hex hk ⟨hik, hne⟩
  obtain ⟨hij, hne⟩ := Nat.find_spec hex
  refine ⟨Nat.find hex, hij, fun k hik hk => run_eq_nil.mpr (hempty k hik hk), head?_run.mpr ⟨hne, ?_⟩⟩
  rw [entry_of_not_isTrailing h, unitStart_eq_of_empty hij hempty]

/-- A label with nothing behind it needs a statement at the end. -/
theorem needsEnd_of_isTrailing {l : Label} (h : p.isTrailing i) (here : p.method.code[i]? = some (.label l)) : p.needsEnd := by
  rw [needsEnd, List.any_eq_true]
  exact ⟨(.label l, i), List.mem_zipIdx_iff_getElem?.mpr here, h⟩

/-! ## Edges of the last statement -/

/-- An operation that control can reach has a statement at or behind it: where there is none, control would go on to the end. -/
theorem not_isTrailing {i : Nat} (hin : m.StaysInside)
    (quiet : ∀ i op, m.Reachable i → m.code[i]? = some op → p.state.unit i = [] → op.goesOn)
    (hr : m.Reachable i) (hi : i < m.code.length) : ¬ p.isTrailing i := by
  intro htr
  have here := List.getElem?_eq_getElem hi
  have hgo := quiet i _ hr here (isTrailing_iff.mp htr i (Nat.le_refl i))
  have leads : m.Leads i m.code[i] (i + 1) := Method.leads_iff.mpr (Or.inl ⟨hgo, rfl⟩)
  have htr' : p.isTrailing (i + 1) := isTrailing_iff.mpr fun j hij => isTrailing_iff.mp htr j (Nat.le_of_succ_le hij)
  exact not_isTrailing hin quiet (hr.step here leads) (hin i _ _ hr here leads) htr'
termination_by m.code.length - i

/-- The labels of an operation are those that its last statement names, each the entry of its instruction. -/
theorem targets_of_finish (hd : p.method.LabelsDistinct) (flow : p.state.UnitFlow i op) (hlast : (p.state.unit i).getLast? = some d)
    {stmt : Stmt} (hf : p.finish i d = .ok stmt) :
    stmt.fallsThrough = op.goesOn ∧
      List.Forall₂ (fun l t => ∃ j, p.method.labelIndex? l = some j ∧ t = p.entry j) op.labels stmt.targets := by
  obtain ⟨hfalls, htargets⟩ := finish_flow hf
  obtain ⟨hgo, hlabels⟩ := flow.last d hlast
  refine ⟨hfalls.trans hgo, hlabels ▸ htargets.imp fun l t ht => ?_⟩
  obtain ⟨j, hj, rfl⟩ := (target_eq_ok hd).mp ht
  exact ⟨j, hj, position_eq_entry p j⟩

/-- An edge leads from a statement to the next one, if control may go on, and to the targets of the statement. -/
theorem Lays.mem_successors (h : p.Lays keepLines b) (hq : b.stmts[q]? = some located) {t : Nat} :
    t ∈ b.successors q ↔ (located.stmt.fallsThrough ∧ q + 1 < b.stmts.length ∧ t = q + 1) ∨ t ∈ located.stmt.targets := by
  rw [h.successors_eq hq, Stmt.followers, List.mem_eraseDups, List.mem_append, Stmt.mem_branchTargets]
  split <;> rename_i hc
  · simp [hc]
  · simp only [List.not_mem_nil, false_or]
    exact ⟨Or.inr, fun ht => ht.resolve_left fun ht => hc ⟨ht.1, ht.2.1⟩⟩

/-- A statement that goes on and names no target leads to the next one alone. -/
theorem Lays.successors_of_quiet (h : p.Lays keepLines b) (hq : b.stmts[q]? = some located) (hnext : q + 1 < b.stmts.length)
    (falls : located.stmt.fallsThrough) (targets : located.stmt.targets = []) : b.successors q = [q + 1] := by
  have hnone : located.stmt.branchTargets = [] := List.eq_nil_iff_forall_not_mem.mpr fun t ht => by
    rw [Stmt.mem_branchTargets, targets] at ht
    cases ht
  rw [h.successors_eq hq, Stmt.followers, if_pos ⟨falls, hnext⟩, hnone]
  rfl

/-- The position of an instruction that has a statement at or behind it is one of the body. -/
theorem Lays.unitStart_lt (h : p.Lays keepLines b) (hi : ¬ p.isTrailing i) : p.unitStart i < b.stmts.length := by
  obtain ⟨j, hij, hempty, hhead⟩ := exists_run_of_not_isTrailing hi
  obtain ⟨hne, hentry⟩ := head?_run.mp hhead
  obtain ⟨located, hl, -⟩ := h.stmt (List.getElem?_eq_getElem (List.length_pos_iff.mpr hne))
  have hlt := (List.getElem?_eq_some_iff.mp hl).1
  rw [← unitStart_eq_of_empty hij fun k hik hkj => run_eq_nil.mp (hempty k hik hkj)]
  exact Nat.lt_of_le_of_lt (Nat.le_add_right _ _) hlt

/-- The last statement of an instruction names what the labels of its operation name, in order. -/
theorem Lays.targets_last (h : p.Lays keepLines b) (flow : p.state.UnitFlow i op) (hq : (p.run i).getLast? = some q)
    (hl : b.stmts[q]? = some located) : List.Forall₂ (fun l t => p.target l = .ok t) op.labels located.stmt.targets := by
  obtain ⟨d, located', hlast, hl', hf⟩ := h.last hq
  obtain rfl := Option.some.inj (hl.symm.trans hl')
  rw [← (flow.last d hlast).2]
  exact (finish_flow hf).2

/-- The last statement of an instruction names the entries of the labels that the operation names. -/
theorem Lays.mem_targets_last (h : p.Lays keepLines b) (hd : p.method.LabelsDistinct) (flow : p.state.UnitFlow i op)
    (hq : (p.run i).getLast? = some q) :
    ∃ located, b.stmts[q]? = some located ∧ located.stmt.fallsThrough = op.goesOn ∧
      ∀ t, t ∈ located.stmt.targets ↔ ∃ l ∈ op.labels, ∃ j, p.method.labelIndex? l = some j ∧ t = p.entry j := by
  obtain ⟨d, located, hlast, hl, hf⟩ := h.last hq
  obtain ⟨hfalls, htargets⟩ := targets_of_finish hd flow hlast hf
  refine ⟨located, hl, hfalls, fun t => ⟨fun ht => exists_of_forall₂ htargets ht, ?_⟩⟩
  rintro ⟨l, hmem, j, hj, rfl⟩
  obtain ⟨t, ht, j', hj', rfl⟩ := exists_of_forall₂ htargets.flip hmem
  rwa [Option.some.inj (hj.symm.trans hj')]

/-- The last statement of an instruction leads nowhere but to the entries of the instructions to which the instruction leads. -/
theorem Lays.leads_of_mem_successors (h : p.Lays keepLines b) (hd : p.method.LabelsDistinct) (flow : p.state.UnitFlow i op)
    (next : op.goesOn → p.entry (i + 1) = p.unitStart (i + 1)) (hq : (p.run i).getLast? = some q) {t : Nat} (ht : t ∈ b.successors q) :
    ∃ j, p.method.Leads i op j ∧ t = p.entry j := by
  obtain ⟨located, hl, hfalls, htargets⟩ := h.mem_targets_last hd flow hq
  rw [h.mem_successors hl, hfalls, htargets] at ht
  rcases ht with ⟨hgo, -, rfl⟩ | ⟨l, hmem, j, hj, rfl⟩
  · exact ⟨i + 1, Method.leads_iff.mpr (Or.inl ⟨hgo, rfl⟩), by rw [next hgo, unitStart_succ, (getLast?_run.mp hq).2]⟩
  · exact ⟨j, Method.leads_iff.mpr (Or.inr ⟨l, hmem, hj⟩), rfl⟩

/-- The last statement of an instruction leads to the entries of the instructions to which the instruction leads. -/
theorem Lays.mem_successors_last (h : p.Lays keepLines b) (hd : p.method.LabelsDistinct) (flow : p.state.UnitFlow i op)
    (next : op.goesOn → ¬ p.isTrailing (i + 1)) (hq : (p.run i).getLast? = some q) {t : Nat} :
    t ∈ b.successors q ↔ ∃ j, p.method.Leads i op j ∧ t = p.entry j := by
  refine ⟨h.leads_of_mem_successors hd flow (fun hgo => entry_of_not_isTrailing (next hgo)) hq, ?_⟩
  obtain ⟨located, hl, hfalls, htargets⟩ := h.mem_targets_last hd flow hq
  rw [h.mem_successors hl, hfalls, htargets]
  rintro ⟨j, leads, rfl⟩
  rcases Method.leads_iff.mp leads with ⟨hgo, rfl⟩ | ⟨l, hmem, hj⟩
  · -- Where control goes on, the next statement is the entry of the next instruction.
    have hlt := h.unitStart_lt (next hgo)
    rw [entry_of_not_isTrailing (next hgo)]
    rw [unitStart_succ, ← (getLast?_run.mp hq).2] at hlt ⊢
    exact Or.inl ⟨hgo, hlt, rfl⟩
  · exact Or.inr ⟨l, hmem, j, hj, rfl⟩

/-- A body that is laid out by a plan keeps control flow, if the statements of each unit lead where its operation does and every reachable
operation that has no statement goes on. -/
theorem Lays.keepsFlow (h : p.Lays keepLines b) (hd : p.method.LabelsDistinct) (hin : p.method.StaysInside)
    (flow : ∀ i op, p.method.code[i]? = some op → p.state.UnitFlow i op)
    (quiet : ∀ i op, p.method.Reachable i → p.method.code[i]? = some op → p.state.unit i = [] → op.goesOn) :
    p.KeepsFlow p.method b where
  run i := List.forall₂_iff_get.mpr ⟨by simp [run], fun k hk hk' => by
    obtain ⟨located, hl, hf⟩ := h.stmt (List.getElem?_eq_getElem hk')
    exact ⟨located, by simpa [run] using hl, hf⟩⟩
  inner i q located hq hnext hl := by
    obtain ⟨hle, hlt⟩ := mem_run.mp hq
    obtain ⟨-, hlt'⟩ := mem_run.mp hnext
    obtain ⟨k, rfl⟩ := Nat.exists_eq_add_of_le hle
    have hk : k + 1 < (p.state.unit i).length := by omega
    have hi : i < p.method.code.length := h.units ▸ lt_of_unit_ne_nil (List.ne_nil_of_length_pos (Nat.zero_lt_of_lt hk))
    have hd := List.getElem?_eq_getElem (Nat.lt_of_succ_lt hk)
    obtain ⟨located', hl', hf⟩ := h.stmt hd
    obtain rfl := Option.some.inj (hl.symm.trans hl')
    obtain ⟨_, hnext, -⟩ := h.stmt (List.getElem?_eq_getElem hk)
    obtain ⟨hfalls, htargets⟩ := finish_flow hf
    obtain ⟨hgo, hlabels⟩ := (flow i _ (List.getElem?_eq_getElem hi)).inner k _ hd hk
    have hnone : located.stmt.targets = [] := by
      rw [hlabels] at htargets
      exact List.forall₂_nil_left_iff.mp htargets
    exact ⟨h.successors_of_quiet hl (List.getElem?_eq_some_iff.mp hnext).1 (hfalls.trans hgo) hnone, hnone⟩
  last i op q hr here hq t := h.mem_successors_last hd (flow i op here) (fun hgo => by
    have leads : p.method.Leads i op (i + 1) := Method.leads_iff.mpr (Or.inl ⟨hgo, rfl⟩)
    exact not_isTrailing hin quiet (hr.step here leads) (hin i op _ hr here leads)) hq
  targets i op q located here hq hl := by
    obtain ⟨d, located', hlast, hl', hf⟩ := h.last hq
    obtain rfl := Option.some.inj (hl.symm.trans hl')
    exact (targets_of_finish hd (flow i op here) hlast hf).2
  handlers k e he := by
    obtain ⟨-, ⟨stmt, line⟩, -, -, hgoes, hf⟩ := h.entry he
    simp only [finish, bind_eq_ok, pure_eq_ok] at hf
    obtain ⟨t, ht, rfl⟩ := hf
    obtain ⟨j, hj, rfl⟩ := (target_eq_ok hd).mp ht
    exact ⟨j, line, hj, by rw [hgoes, position_eq_entry]⟩
  monotone := p.entry_mono
  entry i := by
    by_cases htr : p.isTrailing i
    · refine Or.inr ⟨fun k hk => run_eq_nil.mpr (isTrailing_iff.mp htr k hk), entry_of_isTrailing htr, fun l here => ?_⟩
      obtain ⟨⟨stmt, line⟩, hl, rfl⟩ := h.end (needsEnd_of_isTrailing htr here)
      exact ⟨line, hl⟩
    · exact Or.inl (exists_run_of_not_isTrailing htr)

end Layout.Plan

/-- In a method that is lowered, whose labels are distinct and whose reachable code does not fall off its end, the control flow of the body
is that of the code. -/
theorem Method.control_flow_of_lower {m : Method} {keepLines : Bool} {b : Body} (h : m.lower keepLines = .ok b) (hd : m.LabelsDistinct)
    (hin : m.StaysInside) : ∃ p, m.layout = .ok p ∧ p.KeepsFlow m b := by
  obtain ⟨p, t, hp, rfl, ht, hstate, hl⟩ := lays_of_lower h
  obtain ⟨hx, hn⟩ := Traversal.complete_spec ht (Guide.free_begins p.method)
  refine ⟨p, hp, hl.keepsFlow hd hin (fun i op here => ?_) (fun i op hr here hu => ?_)⟩
  · rw [hstate]
    exact (hx.coherent.stage i (List.getElem?_eq_some_iff.mp here).1).flow here
  · obtain ⟨before, after, hpassed⟩ := hx.passed hn hr here
    exact hpassed.visit.goesOn (hstate ▸ hu)

/-- The branch of the loop has one statement, which leads to that of the next operation and to the first one behind the loop. -/
theorem Method.control_flow_countdown :
    ∃ b p, countdown.lower false = .ok b ∧ countdown.LabelsDistinct ∧ countdown.StaysInside ∧ countdown.layout = .ok p ∧
      p.KeepsFlow countdown b ∧ p.run 4 = [2] ∧ p.entry 5 = 3 ∧ p.entry 7 = 5 ∧ b.successors 2 = [3, 5] := by
  have run : (countdown.lower false).map (·.successors 2) = .ok [3, 5] := by decide +kernel
  have places : countdown.layout.map (fun p => (p.run 4, p.entry 5, p.entry 7)) = .ok ([2], 3, 5) := by decide +kernel
  obtain ⟨b, hb, successors⟩ := map_eq_ok.mp run
  have hd : countdown.LabelsDistinct := by decide
  have hin : countdown.StaysInside := .of_getLast fun op hop => by
    cases hop
    rfl
  obtain ⟨p, hp, hflow⟩ := control_flow_of_lower hb hd hin
  rw [hp, Except.map, Except.ok.injEq, Prod.mk.injEq, Prod.mk.injEq] at places
  exact ⟨b, p, hb, hd, hin, hp, hflow, places.1, places.2.1, places.2.2, successors⟩

end ThreeAddress
