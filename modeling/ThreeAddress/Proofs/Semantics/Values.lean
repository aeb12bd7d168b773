import ThreeAddress.Proofs.Layout.Finish
import ThreeAddress.Proofs.Lowering.Exclusive
import ThreeAddress.Proofs.Semantics.BodyMachine

/-!
# Values of operands

What an operand stands for has a value once registers and the heap have values (`State.value`), and the finished form of what it stands for
has the same value. The value depends on the registers that the operand mentions, and on the heap only as long as the operand needs
evaluation: `value_congr` is what lets a value wait on the stack until it is used.
-/

namespace ThreeAddress

variable {V H : Type} {M : Meaning V H} {m : Method} {s : State} {regs regs' : RegisterId → V} {heap heap' : H} {o q : OperandId}
  {r : RegisterId} {i : Nat}

namespace State

/-- The value of an operand that stands for a register or a constant. No other operand is asked for its value. -/
def immediateValue (M : Meaning V H) (s : State) (regs : RegisterId → V) (o : OperandId) : V :=
  match s.content o with
  | .immediate i => i.eval M regs
  | _ => M.constant .null

/-- The value of what an operand stands for. -/
def value (M : Meaning V H) (s : State) (regs : RegisterId → V) (heap : H) (o : OperandId) : V :=
  (s.content o).eval M regs heap (s.immediateValue M regs)

/-- A register holds the value of its operand. -/
theorem value_of_register (h : (s.operand o).register = some r) : s.value M regs heap o = regs r := by
  rw [value, content_of_register h]
  rfl

theorem value_of_unbound (h : (s.operand o).register = none) :
    s.value M regs heap o = (s.operand o).value.eval M regs heap (s.immediateValue M regs) := by
  rw [value, content_of_unbound h]

/-- What needs no evaluation has its value in whatever heap. -/
theorem value_eq_immediateValue (h : (s.content o).isImmediate) : s.value M regs heap o = s.immediateValue M regs o := by
  unfold value immediateValue
  cases hc : s.content o with
  | immediate i => rfl
  | _ => simp [hc, Rvalue.isImmediate] at h

/-- The operand stands for a value, and no call waits to be made for it. -/
def Stands (M : Meaning V H) (s : State) (regs : RegisterId → V) (heap : H) (o : OperandId) (v : V) : Prop :=
  s.value M regs heap o = v ∧ (s.content o).isCall = false

/-! ## What a value depends on -/

/-- An operand that needs no evaluation mentions the register that it stands for. -/
theorem immediateValue_congr (h : (s.content o).isImmediate) (hregs : ∀ r, s.mentions r o = true → regs' r = regs r) :
    s.immediateValue M regs' o = s.immediateValue M regs o := by
  unfold immediateValue
  cases hc : s.content o with
  | immediate i =>
    cases i with
    | constant c => rfl
    | register r => exact hregs r (by rw [mentions, hc]; exact beq_self_eq_true _)
  | _ => simp [hc, Rvalue.isImmediate] at h

/-- An operand mentions what the operands of its content mention. -/
theorem mentions_of_mem_operands (hq : q ∈ (s.content o).operands) (hlt : q.index < o.index) (h : s.mentions r q = true) :
    s.mentions r o = true := by
  rw [mentions]
  cases hc : s.content o with
  | immediate i =>
    rw [hc] at hq
    cases hq
  | _ =>
    rw [hc] at hq
    simp only [List.any_eq_true]
    exact ⟨q, hq, by simp [hlt, h]⟩

/-- The operands of what an operand stands for come before it. -/
theorem Coherent.lt_of_mem_operands (h : s.Coherent m) (hk : s.Known o) (hq : q ∈ (s.content o).operands) : q.index < o.index := by
  cases hr : (s.operand o).register with
  | some r =>
    rw [content_of_register hr] at hq
    cases hq
  | none =>
    rw [content_of_unbound hr] at hq
    exact (h.operands o hk q hq).1

end State

/-- The value of a right side depends on the values of its operands, and on the heap if it needs evaluation. -/
theorem Rvalue.eval_congr {α : Type} {f g : α → V} {v : Rvalue α} (hf : ∀ a ∈ v.operands, f a = g a)
    (hregs : ∀ r, v = .register r → regs' r = regs r) (hheap : heap' = heap ∨ v.isImmediate) :
    v.eval M regs' heap' f = v.eval M regs heap g := by
  cases v with
  | immediate i =>
    cases i with
    | constant c => rfl
    | register r => exact hregs r rfl
  | expr e =>
    obtain rfl := hheap.resolve_right (by simp [isImmediate])
    simp only [eval, Expr.map_congr hf]
  | ref place =>
    obtain rfl := hheap.resolve_right (by simp [isImmediate])
    simp only [eval, Ref.map_congr hf]

namespace State

/-- A value stays as it is as long as the registers that its operand mentions do, and the heap if the operand needs evaluation. -/
theorem Coherent.value_congr (h : s.Coherent m) (hk : s.Known o) (hregs : ∀ r, s.mentions r o = true → regs' r = regs r)
    (hheap : heap' = heap ∨ (s.content o).isImmediate) : s.value M regs' heap' o = s.value M regs heap o := by
  refine Rvalue.eval_congr (fun q hq => ?_) (fun r hr => ?_) hheap
  · refine immediateValue_congr (h.operands_content hk q hq) fun r hr => hregs r ?_
    exact mentions_of_mem_operands hq (h.lt_of_mem_operands hk hq) hr
  · refine hregs r ?_
    rw [mentions, hr]
    exact beq_self_eq_true _

/-- An operand with a register mentions that register alone. -/
theorem mentions_of_register {r' : RegisterId} (h : (s.operand o).register = some r') : s.mentions r o = true ↔ r = r' := by
  rw [mentions, content_of_register h]
  simp only [Rvalue.register, beq_iff_eq, Immediate.register.injEq]
  exact eq_comm

/-- An operand whose value is a register is a local slot that was loaded. -/
theorem Coherent.slot_of_value (h : s.Coherent m) (hk : s.Known o) (hv : (s.operand o).value = .register r) :
    ∃ k, s.registers.slot? k = some r := by
  rcases h.owned o hk with hout | ⟨e, he, rfl⟩
  · cases h.stage _ (h.owner hk) with
    | untouched out | statement _ _ out | shared _ _ out => simp [hout] at out
    | @result op xs e o' built pushes out value =>
      obtain rfl := Option.some.inj (hout.symm.trans out)
      rw [hv] at value
      cases e with
      | load k =>
        simp only [Effect.rvalue?, Option.map_eq_some_iff, Rvalue.register, Rvalue.immediate.injEq, Immediate.register.injEq] at value
        obtain ⟨r', hr', rfl⟩ := value
        exact ⟨k, hr'⟩
      | _ => simp [Effect.rvalue?, Rvalue.register] at value
    | caught _ _ _ out _ value =>
      obtain rfl := Option.some.inj (hout.symm.trans out)
      rw [hv] at value
      cases value
  · obtain ⟨-, -, value, -⟩ := h.entry _ e he
    rw [hv] at value
    cases value

/-- What an operand stands for reads a register, directly or inside its operands. -/
inductive Reads (s : State) (r : RegisterId) : OperandId → Prop where
  | register {o : OperandId} (content : s.content o = .register r) : Reads s r o
  | inside {o p : OperandId} (operand : p ∈ (s.content o).operands) (reads : Reads s r p) : Reads s r o

/-- Operands do not mention registers of operands that came after them. -/
theorem Coherent.not_mentions (h : s.Coherent m) (he : s.Exclusive) (hr : (s.operand o).register = some r) (q : OperandId)
    (hk : s.Known q) (hlt : q.index < o.index) : s.mentions r q = false := by
  cases hq : (s.operand q).register with
  | some r' =>
    rw [← Bool.not_eq_true, mentions_of_register hq]
    rintro rfl
    rw [he.inj o q r hr hq] at hlt
    exact Nat.lt_irrefl _ hlt
  | none =>
    have hops := h.operands q hk
    have slot : (s.operand q).value ≠ .register r := by
      intro hv
      obtain ⟨k, hslot⟩ := h.slot_of_value hk hv
      exact (h.register o r hr).2 k hslot
    rw [mentions, content_of_unbound hq]
    cases hv : (s.operand q).value with
    | immediate v =>
      simp only [hv, ne_eq] at slot
      simp only [beq_eq_false_iff_ne, ne_eq]
      rintro rfl
      exact slot rfl
    | expr | ref =>
      rw [hv] at hops
      simp only [List.any_eq_false]
      intro p hp
      have hpq := (hops p hp).1
      simp only [hpq, dite_true, Bool.not_eq_true]
      exact h.not_mentions he hr p (Nat.lt_trans hpq hk) (Nat.lt_trans hpq hlt)
termination_by q.index

end State

/-! ## Finished values -/

namespace Layout.Plan

variable {p : Plan}

/-- The finished form of an operand has its value. -/
theorem eval_immediate {im : Immediate} (h : p.immediate i o = .ok im) : im.eval M regs = p.state.immediateValue M regs o := by
  rw [State.immediateValue, content_of_immediate h]

/-- An operand that can be finished needs no evaluation. -/
theorem isImmediate_of_immediate {im : Immediate} (h : p.immediate i o = .ok im) : (p.state.content o).isImmediate := by
  rw [content_of_immediate h]
  rfl

/-- The finished form of an operand has the value of what the operand stands for. -/
theorem eval_immediate_eq_value {im : Immediate} (h : p.immediate i o = .ok im) : im.eval M regs = p.state.value M regs heap o := by
  rw [State.value_eq_immediateValue (isImmediate_of_immediate h), eval_immediate h]

/-- The finished form of a right side has its value. -/
theorem eval_value {v : Rvalue OperandId} {w : Value} (h : p.value i v = .ok w) :
    w.eval M regs heap = v.eval M regs heap (p.state.immediateValue M regs) := by
  have hf : ∀ o im, p.immediate i o = .ok im → im.eval M regs = p.state.immediateValue M regs o := fun _ _ => eval_immediate
  cases v with
  | immediate im =>
    simp only [value, Rvalue.mapM, pure_eq_ok] at h
    subst h
    rfl
  | expr e =>
    simp only [value, Rvalue.mapM, bind_eq_ok, pure_eq_ok] at h
    obtain ⟨d, hd, rfl⟩ := h
    simp only [Value.eval, Rvalue.eval, Expr.map_eq_of_mapM hf hd]
  | ref place =>
    simp only [value, Rvalue.mapM, bind_eq_ok, pure_eq_ok] at h
    obtain ⟨d, hd, rfl⟩ := h
    simp only [Value.eval, Rvalue.eval, Ref.map_eq_of_mapM hf hd]

/-- The finished form of a right side is a call if the right side is one. -/
theorem isCall_value {v : Rvalue OperandId} {w : Value} (h : p.value i v = .ok w) : w.isCall = v.isCall := by
  cases v with
  | immediate im =>
    simp only [value, Rvalue.mapM, pure_eq_ok] at h
    subst h
    rfl
  | expr e =>
    simp only [value, Rvalue.mapM, bind_eq_ok, pure_eq_ok] at h
    obtain ⟨d, hd, rfl⟩ := h
    cases e <;> simp only [Expr.mapM, bind_eq_ok, pure_eq_ok] at hd
    case binary =>
      obtain ⟨_, -, _, -, rfl⟩ := hd
      rfl
    case new =>
      subst hd
      rfl
    all_goals
      obtain ⟨_, -, rfl⟩ := hd
      rfl
  | ref place =>
    simp only [value, Rvalue.mapM, bind_eq_ok, pure_eq_ok] at h
    obtain ⟨d, hd, rfl⟩ := h
    rfl

/-- The finished form of what an operand stands for has its value. -/
theorem eval_content {w : Value} (h : p.value i (p.state.content o) = .ok w) :
    w.eval M regs heap = p.state.value M regs heap o :=
  eval_value h

end Layout.Plan
end ThreeAddress
