import ThreeAddress.Proofs.Semantics.Relation

/-!
# Turns of plain operations

What the machines do for a plain operation. The operands on the simulated stack stand for the values that the stack machine pops, so that the
statement of the operation acts on the same values; and what the operation writes is no register, and no part of the heap, that an operand left
on the stack depends on.
-/

namespace ThreeAddress

open State Layout

variable {V H : Type} {M : Meaning V H} {args : Arguments V} {m : Method} {b : Body} {p : Plan} {slot : Nat → Option RegisterId}
  {op : Operation} {σ : StackState V H} {τ : BodyState V H}

/-- Events agree if the actions are the same and the registers of the local slots hold the values of the slots. -/
def Event.Agrees (slot : Nat → Option RegisterId) (e : Event V Nat) (f : Event V RegisterId) : Prop :=
  e.action = f.action ∧ ∀ k r, slot k = some r → e.store k = f.store r

/-! ## Operands off the stack -/

/-- The operands of a plain operation are off the stack, and its effect is to be carried out. -/
structure Poised (M : Meaning V H) (m : Method) (p : Plan) (slot : Nat → Option RegisterId) (σ : StackState V H) (τ : BodyState V H)
    (op : Operation) (before after : Stack) (xs : List OperandId) (rest : Stack) (e : Effect OperandId) (below : List (Cell V)) : Prop where
  related : Related M m p slot σ τ
  here : m.code[σ.position]? = some op
  found : p.state.Comes m σ.position before (σ.stack.map Cell.wide)
  plain : op.isPlain
  performed : Performed false σ.position op before after xs rest e p.state
  shape : op.reshape (σ.stack.map Cell.wide) = .ok (op.pushes.toList ++ below.map Cell.wide)
  left : Spells Cell.wide (fun o c => p.state.Stands M τ.regs τ.heap o c.value) rest below
  /-- No operand is a call that is still to be made. -/
  made : ∀ o ∈ xs, (p.state.content o).isCall = false
  turn : σ.step M m = { σ with stack := below }.perform M m op.pushes (e.map (p.state.value M τ.regs τ.heap))

theorem StackState.execute_plain (h : op.isPlain) (σ : StackState V H) :
    σ.execute M m op =
      match popAll Cell.wide op.takes.reverse σ.stack with
      | .ok (popped, rest) =>
        match op.effect (popped.reverse.map Cell.value) with
        | some e => { σ with stack := rest }.perform M m op.pushes e
        | none => .stuck
      | .error _ => .stuck := by
  cases op <;> first | rfl | cases h

/-- Operands stand for the values of the cells that are popped with them. -/
theorem map_value_of_stands {s : State} {regs : RegisterId → V} {heap : H} {os : List OperandId} {cells : List (Cell V)}
    (h : List.Forall₂ (fun o c => s.Stands M regs heap o c.value) os cells) :
    cells.map Cell.value = os.map (s.value M regs heap) ∧ ∀ o ∈ os, (s.content o).isCall = false := by
  induction h with
  | nil => exact ⟨rfl, by simp⟩
  | cons hc _ ih =>
    refine ⟨by rw [List.map_cons, List.map_cons, ih.1, hc.1], fun o ho => ?_⟩
    rcases List.mem_cons.mp ho with rfl | ho
    · exact hc.2
    · exact ih.2 o ho

/-- Where the machines are at a plain operation, its operands can be taken off the stack. -/
theorem Layout.Plan.Runs.poised (h : p.Runs m b slot) (hr : Related M m p slot σ τ) (here : m.code[σ.position]? = some op)
    (plain : op.isPlain) : ∃ before after xs rest e below, Poised M m p slot σ τ op before after xs rest e below := by
  obtain ⟨before, after, ws, hs, hv, spells, shape⟩ := h.visit hr here
  cases hv with
  | @plain _ xs rest e _ performed =>
    have shape' := shape
    rw [Operation.reshape_plain plain] at shape'
    cases hpop : popAll Cell.wide op.takes.reverse σ.stack with
    | error e => simp [hpop, Except.map] at shape'
    | ok popped =>
      obtain ⟨cells, below⟩ := popped
      rw [hpop] at shape'
      obtain rfl := Except.ok.inj shape'
      obtain ⟨os, rest', hpop', hall, hrest⟩ := spells.pop hpop
      rw [performed.pop, Option.some.injEq, Prod.mk.injEq] at hpop'
      obtain ⟨rfl, rfl⟩ := hpop'
      obtain ⟨hvalues, hmade⟩ := map_value_of_stands hall
      refine ⟨before, after, xs, rest, e, below, hr, here, hs, plain, performed, shape, hrest, fun o ho => hmade o (by simpa using ho), ?_⟩
      have heffect : op.effect (cells.reverse.map Cell.value) = some (e.map (p.state.value M τ.regs τ.heap)) := by
        rw [List.map_reverse, hvalues, List.map_reverse, List.reverse_reverse, Operation.effect_map, performed.effect]
        rfl
      rw [StackState.step_of_here here, StackState.execute_plain plain, hpop]
      simp only [heffect]
  | shuffle | line | label | caught => cases plain

/-! ## What is left on the stack -/

namespace Poised

variable {before after rest : Stack} {xs : List OperandId} {e : Effect OperandId} {below : List (Cell V)} {o q : OperandId} {r : RegisterId}
  {j : Nat} {regs : RegisterId → V} {heap : H} {locals : Nat → V} {w : Bool}

/-- The operands left on the stack exist, and the result of the operation came after them. -/
theorem produced (hp : Poised M m p slot σ τ op before after xs rest e below) (h : p.Runs m b slot) (ho : .operand o ∈ rest) :
    p.state.Known o ∧ ∀ q, (p.state.frame σ.position).out = some q → o.index < q.index := by
  obtain ⟨cells, carries, -, results⟩ := hp.found
  obtain ⟨c, hc, hout⟩ := results.exists_of_mem ((Lowering.mem_of_popOperands hp.performed.pop).2 _ ho)
  refine ⟨(h.coherent.out _ o hout).1, fun q hq => ?_⟩
  obtain ⟨o', hout', hlt⟩ := h.steady.outs σ.position q cells hq carries c hc
  rwa [Option.some.inj (hout.symm.trans hout')]

/-- What is left on the stack is still there behind the operation. -/
theorem mem_after (hp : Poised M m p slot σ τ op before after xs rest e below) (ho : .operand o ∈ rest) : .operand o ∈ after := by
  cases hw : op.pushes with
  | none => rwa [(hp.performed.leaves.statement hw).2]
  | some w =>
    obtain ⟨q, -, rfl⟩ := hp.performed.leaves.result w hw
    exact mem_pushOperand.mpr (Or.inr ho)

/-- The operands left on the stack stand for the same values, if nothing is written that they depend on. -/
theorem keeps (hp : Poised M m p slot σ τ op before after xs rest e below) (h : p.Runs m b slot)
    (hregs : ∀ o, .operand o ∈ rest → ∀ r, p.state.mentions r o = true → regs r = τ.regs r)
    (hheap : heap = τ.heap ∨ ∀ o, .operand o ∈ rest → (p.state.content o).isImmediate) :
    Spells Cell.wide (fun o c => p.state.Stands M regs heap o c.value) rest below := by
  refine hp.left.imp fun o c ho hc => ⟨?_, hc.2⟩
  rw [← hc.1]
  exact h.coherent.value_congr (hp.produced h ho).1 (hregs o ho) (hheap.imp_right fun hi => hi o ho)

/-- No operand left on the stack depends on the register of the result of the operation. -/
theorem unread (hp : Poised M m p slot σ τ op before after xs rest e below) (h : p.Runs m b slot)
    (hr : (p.state.operand q).register = some r) (hq : (p.state.frame σ.position).out = some q) (x : V) :
    ∀ o, .operand o ∈ rest → ∀ r', p.state.mentions r' o = true → Function.update τ.regs r x r' = τ.regs r' := by
  intro o ho r' hm
  obtain ⟨hk, hlt⟩ := hp.produced h ho
  refine Function.update_of_ne ?_ _ _
  rintro rfl
  rw [h.coherent.not_mentions h.steady.exclusive hr o hk (hlt q hq)] at hm
  cases hm

/-- No operand left on the stack depends on a local slot that the operation writes. -/
theorem unread_slot (hp : Poised M m p slot σ τ op before after xs rest e below) (h : p.Runs m b slot) {k : Nat}
    (hslot : p.state.registers.slot? k = some r)
    (spares : ∀ o, .operand o ∈ after → Lowering.Frozen (fun s o => s.mentions r o) p.state o) (x : V) :
    ∀ o, .operand o ∈ rest → ∀ r', p.state.mentions r' o = true → Function.update τ.regs r x r' = τ.regs r' := by
  intro o ho r' hm
  refine Function.update_of_ne ?_ _ _
  rintro rfl
  rcases spares o (hp.mem_after ho) with hb | hn
  · obtain ⟨r₂, hr₂⟩ := Option.isSome_iff_exists.mp hb
    obtain rfl := (mentions_of_register hr₂).mp hm
    exact h.apart o r' k hr₂ (h.slots k r' hslot)
  · cases hm.symm.trans hn

/-- No operand left on the stack depends on the heap that the operation changes. -/
theorem frozen (hp : Poised M m p slot σ τ op before after xs rest e below)
    (spares : ∀ o, .operand o ∈ after → Lowering.Frozen (fun s o => !(s.operand o).value.isImmediate) p.state o) :
    ∀ o, .operand o ∈ rest → (p.state.content o).isImmediate := by
  intro o ho
  rcases spares o (hp.mem_after ho) with hb | hn
  · obtain ⟨r, hr⟩ := Option.isSome_iff_exists.mp hb
    rw [content_of_register hr]
    rfl
  · cases hr : (p.state.operand o).register with
    | some r =>
      rw [content_of_register hr]
      rfl
    | none =>
      rw [content_of_unbound hr]
      simpa using hn

/-! ## Results -/

end Poised

section
variable {r : RegisterId} {w : Value} {α : Type}

/-- An assignment to a register shows nothing unless it is a call. -/
theorem BodyState.execute_assign (hw : w.isCall = false) :
    τ.execute M args (.assign (.register r) w) = .next none (τ.assign r (w.eval M τ.regs τ.heap)) := by
  cases w with
  | expr e => cases e <;> first | rfl | cases hw
  | _ => rfl

/-- An assignment of a call shows the call. -/
theorem BodyState.execute_call {c : Invoke Immediate} {c' : Invoke V} (hc : c.map (τ.operand M) = c') :
    τ.execute M args (.assign (.register r) (.expr (.invoke c))) =
      .next (some ⟨.call c', τ.regs⟩) { τ.assign r (M.call τ.heap c').1 with heap := (M.call τ.heap c').2 } := by
  subst hc
  rfl

/-- An assignment to a field or an array element shows the write. -/
theorem BodyState.execute_write {place : Ref Immediate} (hw : w.isCall = false) :
    τ.execute M args (.assign (.ref place) w) =
      τ.act (.write (place.map (τ.operand M)) (w.eval M τ.regs τ.heap))
        { τ.advance with heap := M.write τ.heap (place.map (τ.operand M)) (w.eval M τ.regs τ.heap) } := by
  cases w with
  | expr e => cases e <;> first | rfl | cases hw
  | _ => rfl

/-- What leaves a value behind and is no call pushes that value. -/
theorem StackState.perform_rvalue {e : Effect α} {v : Rvalue α} {wide : Option Bool} {regs : RegisterId → V}
    {slot : Nat → Option RegisterId} (hv : e.rvalue? slot = some v) (hc : v.isCall = false)
    (hl : ∀ k r, slot k = some r → regs r = σ.locals k) (f : α → V) :
    σ.perform M m wide (e.map f) = .next none (σ.push wide (v.eval M regs σ.heap f)).advance := by
  cases e with
  | load k =>
    simp only [Effect.rvalue?, Option.map_eq_some_iff] at hv
    obtain ⟨r, hr, rfl⟩ := hv
    rw [Rvalue.register, Rvalue.eval, Immediate.eval, hl k r hr]
    rfl
  | call c =>
    simp only [Effect.rvalue?, Option.some.injEq] at hv
    subst hv
    cases hc
  | constant | operator | read =>
    simp only [Effect.rvalue?, Option.some.injEq] at hv
    subst hv
    rfl
  | _ => cases hv

end

/-- The machine of the body executes the statement of an operation that has one. -/
theorem Layout.Plan.Runs.step_of_unit (h : p.Runs m b slot) (hr : Related M m p slot σ τ) {d : Draft}
    (hu : p.state.unit σ.position = [d]) : ∃ stmt, p.finish σ.position d = .ok stmt ∧ τ.step M args b = τ.execute M args stmt := by
  obtain ⟨located, hl, hf⟩ := h.stmt hu
  refine ⟨located.stmt, hf, ?_⟩
  rw [BodyState.step, hr.position, h.entry_eq, hl]

namespace Poised

variable {before after rest : Stack} {xs : List OperandId} {e : Effect OperandId} {below : List (Cell V)} {o : OperandId} {r : RegisterId}
  {j : Nat} {regs : RegisterId → V} {heap : H} {locals : Nat → V} {w : Bool}

/-- The events of one action agree while the registers of the slots hold what the slots hold. -/
theorem agrees (hp : Poised M m p slot σ τ op before after xs rest e below) (a : Action V) :
    Event.Agrees slot ⟨a, σ.locals⟩ ⟨a, τ.regs⟩ :=
  ⟨rfl, fun k r hr => (hp.related.locals k r hr).symm⟩

/-- The registers of the local slots hold what they held after another register was written. -/
theorem locals_update (hp : Poised M m p slot σ τ op before after xs rest e below) (h : p.Runs m b slot)
    (hr : (p.state.operand o).register = some r) (x : V) :
    ∀ k r', slot k = some r' → Function.update τ.regs r x r' = σ.locals k := by
  intro k r' hk
  rw [Function.update_of_ne, hp.related.locals k r' hk]
  rintro rfl
  exact h.apart o r' k hr hk

/-- The stack machine pushes the value of a result that is no call. -/
theorem turn_value (hp : Poised M m p slot σ τ op before after xs rest e below) (h : p.Runs m b slot) (hw : op.pushes = some w)
    (hk : p.state.Known o) (hvalue : e.rvalue? p.state.registers.slot? = some (p.state.operand o).value)
    (hc : (p.state.operand o).value.isCall = false) :
    σ.step M m = .next none { σ.advance with
      stack := ⟨(p.state.operand o).value.eval M τ.regs τ.heap (p.state.immediateValue M τ.regs), w⟩ :: below } := by
  have hlocals : ∀ k r, p.state.registers.slot? k = some r → τ.regs r = ({ σ with stack := below } : StackState V H).locals k :=
    fun k r hr => hp.related.locals k r (h.slots k r hr)
  have heval : (p.state.operand o).value.eval M τ.regs σ.heap (p.state.value M τ.regs τ.heap) =
      (p.state.operand o).value.eval M τ.regs τ.heap (p.state.immediateValue M τ.regs) :=
    Rvalue.eval_congr (fun q hq => value_eq_immediateValue (h.coherent.operands o hk q hq).2) (fun _ _ => rfl) (Or.inl hp.related.heap.symm)
  rw [hp.turn, hw, StackState.perform_rvalue hvalue hc hlocals, heval]
  rfl

/-- A result that needs no register waits on the simulated stack. A call does not wait. -/
theorem waits_of_result (hp : Poised M m p slot σ τ op before after xs rest e below) (h : p.Runs m b slot) (hw : op.pushes = some w)
    (hafter : after = pushOperand o w rest) (hk : p.state.Known o)
    (hvalue : e.rvalue? p.state.registers.slot? = some (p.state.operand o).value) (hnone : (p.state.operand o).register = none)
    (hunit : p.state.unit σ.position = []) : Waits M m p slot σ τ := by
  have hcall : (p.state.operand o).value.isCall = false := by
    rw [← Bool.not_eq_true]
    intro hc
    obtain ⟨c, rfl, hv⟩ := Operation.eq_call_of_isCall hp.performed.effect hvalue hc
    rcases hp.performed.spares o (by rw [hafter]; exact List.mem_cons_self) with hb | hi
    · simp [hnone] at hb
    · simp [hv, Rvalue.isImmediate] at hi
  refine ⟨{ σ.advance with stack := ⟨p.state.value M τ.regs τ.heap o, w⟩ :: below }, ?_, ?_, rfl⟩
  · rw [hp.turn_value h hw hk hvalue hcall, value_of_unbound hnone]
  · refine h.related_wait hp.related hp.here hp.found (.plain hp.plain hp.performed) ?_ (Operation.goesOn_of_pushes hw) hunit ?_
    · rw [hp.shape, hw]
      rfl
    · rw [hafter]
      exact hp.left.push (a := ⟨p.state.value M τ.regs τ.heap o, w⟩) ⟨rfl, by rwa [content_of_unbound hnone]⟩

/-- The machines are related behind an operation whose result was put into its register. -/
theorem related_result (hp : Poised M m p slot σ τ op before after xs rest e below) (h : p.Runs m b slot) (hw : op.pushes = some w)
    (hafter : after = pushOperand o w rest) (hout : (p.state.frame σ.position).out = some o) (hr : (p.state.operand o).register = some r)
    (hunit : p.state.unit σ.position = [.define o]) (x : V)
    (hheap : heap = τ.heap ∨ ∀ o, .operand o ∈ rest → (p.state.content o).isImmediate) :
    Related M m p slot { position := σ.position + 1, stack := ⟨x, w⟩ :: below, locals := σ.locals, heap }
      { position := τ.position + 1, regs := Function.update τ.regs r x, heap } := by
  have hgo := Operation.goesOn_of_pushes hw
  have leads : m.Leads σ.position op (σ.position + 1) := Method.leads_iff.mpr (Or.inl ⟨hgo, rfl⟩)
  have hentry := h.entry_next hp.related
  rw [hunit, List.length_singleton] at hentry
  rw [← hentry]
  refine h.related_next hp.here hp.found (.plain hp.plain hp.performed) ?_ leads (hp.locals_update h hr x) ?_
  · rw [hp.shape, hw]
    rfl
  · rw [hafter]
    refine (hp.keeps h (hp.unread h hr hout x) hheap).push (a := ⟨x, w⟩) ⟨?_, ?_⟩
    · rw [value_of_register hr, Function.update_self]
    · rw [content_of_register hr]
      rfl

/-- Where an operation has a result, the machine of the body evaluates it too, or waits. -/
theorem turn_result (hp : Poised M m p slot σ τ op before after xs rest e below) (h : p.Runs m b slot) (hw : op.pushes = some w) :
    Turn.Rel (Event.Agrees slot) (Related M m p slot) (σ.step M m) (τ.step M args b) ∨ Waits M m p slot σ τ := by
  obtain ⟨o, hafter, hk, hout, hvalue, ⟨hnone, hunit⟩ | ⟨r, hr, hunit⟩⟩ := hp.performed.result h.coherent h.steady.exclusive hp.here hw
  · exact Or.inr (hp.waits_of_result h hw hafter hk hvalue hnone hunit)
  left
  obtain ⟨stmt, hf, hstep⟩ := h.step_of_unit hp.related hunit
  simp only [Plan.finish, bind_eq_ok, pure_eq_ok] at hf
  obtain ⟨r', hr', v, hv, rfl⟩ := hf
  obtain rfl : r = r' := by
    rw [Plan.register, content_of_register hr] at hr'
    exact Except.ok.inj hr'
  cases hc : (p.state.operand o).value.isCall with
  | false =>
    rw [hp.turn_value h hw hk hvalue hc, hstep, BodyState.execute_assign ((Plan.isCall_value hv).trans hc), Plan.eval_value hv]
    obtain ⟨position, regs, heap⟩ := τ
    obtain rfl : heap = σ.heap := hp.related.heap
    exact .next .none (hp.related_result h hw hafter hout hr hunit _ (Or.inl rfl))
  | true =>
    obtain ⟨c, rfl, hval⟩ := Operation.eq_call_of_isCall hp.performed.effect hvalue hc
    rw [hval] at hv
    simp only [Plan.value, Rvalue.mapM, Expr.mapM, bind_eq_ok, pure_eq_ok] at hv
    obtain ⟨_, ⟨d, hd, rfl⟩, rfl⟩ := hv
    have hmap : d.map (τ.operand M) = c.map (p.state.value M τ.regs τ.heap) :=
      Invoke.map_eq_of_mapM (fun _ _ => Plan.eval_immediate_eq_value) hd
    rw [hp.turn, hw, hstep, BodyState.execute_call hmap]
    refine .next (.some (hp.agrees _)) ?_
    rw [hp.related.heap]
    exact hp.related_result h hw hafter hout hr hunit _ (Or.inr (hp.frozen hp.performed.spares))

/-! ## Statements -/

/-- The machines are related behind an operation that has no result, wherever it leads. -/
theorem related_behind (hp : Poised M m p slot σ τ op before after xs rest e below) (h : p.Runs m b slot) (hn : op.pushes = none)
    (leads : m.Leads σ.position op j) (hlocals : ∀ k r, slot k = some r → regs r = locals k)
    (hregs : ∀ o, .operand o ∈ rest → ∀ r, p.state.mentions r o = true → regs r = τ.regs r)
    (hheap : heap = τ.heap ∨ ∀ o, .operand o ∈ rest → (p.state.content o).isImmediate) :
    Related M m p slot { position := j, stack := below, locals, heap } { position := p.entry j, regs, heap } := by
  refine h.related_next hp.here hp.found (.plain hp.plain hp.performed) ?_ leads hlocals ?_
  · rw [hp.shape, hn]
    rfl
  · rw [(hp.performed.leaves.statement hn).2]
    exact hp.keeps h hregs hheap

/-- The machines are related behind an operation that has no result and goes on. -/
theorem related_behind_next (hp : Poised M m p slot σ τ op before after xs rest e below) (h : p.Runs m b slot) (hn : op.pushes = none)
    (goes : e.goesOn) (hlocals : ∀ k r, slot k = some r → regs r = locals k)
    (hregs : ∀ o, .operand o ∈ rest → ∀ r, p.state.mentions r o = true → regs r = τ.regs r)
    (hheap : heap = τ.heap ∨ ∀ o, .operand o ∈ rest → (p.state.content o).isImmediate) :
    Related M m p slot { position := σ.position + 1, stack := below, locals, heap } { position := τ.position + 1, regs, heap } := by
  have hgo : op.goesOn := (Operation.flow_of_effect hp.performed.effect).1 ▸ goes
  obtain ⟨d, hunit, -⟩ := hp.performed.draft h.coherent hp.here hn
  have hentry := h.entry_next hp.related
  rw [hunit, List.length_singleton] at hentry
  rw [← hentry]
  exact hp.related_behind h hn (Method.leads_iff.mpr (Or.inl ⟨hgo, rfl⟩)) hlocals hregs hheap

/-- The machines are related at a label to which an operation leads that writes nothing. -/
theorem related_at (hp : Poised M m p slot σ τ op before after xs rest e below) (h : p.Runs m b slot) (hn : op.pushes = none) {l : Label}
    (hl : l ∈ e.labels) (hj : m.labelIndex? l = some j) :
    Related M m p slot { σ with stack := below, position := j } { τ with position := p.entry j } := by
  have leads : m.Leads σ.position op j :=
    Method.leads_iff.mpr (Or.inr ⟨l, (Operation.flow_of_effect hp.performed.effect).2 ▸ hl, hj⟩)
  obtain ⟨position, regs, heap⟩ := τ
  obtain rfl : heap = σ.heap := hp.related.heap
  exact hp.related_behind h hn leads hp.related.locals (fun _ _ _ _ => rfl) (Or.inl rfl)

/-- The machines are related behind an operation that writes nothing and goes on. -/
theorem related_advance (hp : Poised M m p slot σ τ op before after xs rest e below) (h : p.Runs m b slot) (hn : op.pushes = none)
    (goes : e.goesOn) : Related M m p slot { σ.advance with stack := below } τ.advance := by
  obtain ⟨position, regs, heap⟩ := τ
  obtain rfl : heap = σ.heap := hp.related.heap
  exact hp.related_behind_next h hn goes hp.related.locals (fun _ _ _ _ => rfl) (Or.inl rfl)

/-- The machines are related behind an operation that changes the heap and goes on. -/
theorem related_written (hp : Poised M m p slot σ τ op before after xs rest e below) (h : p.Runs m b slot) (hn : op.pushes = none)
    (goes : e.goesOn) (spares : ∀ o, .operand o ∈ after → Lowering.Frozen (fun s o => !(s.operand o).value.isImmediate) p.state o) :
    Related M m p slot { σ.advance with stack := below, heap } { τ.advance with heap } :=
  hp.related_behind_next h hn goes hp.related.locals (fun _ _ _ _ => rfl) (Or.inr (hp.frozen spares))

end Poised

/-! ## Labels and switches -/

/-- A finished label is the entry of its instruction. -/
theorem Layout.Plan.Runs.target (h : p.Runs m b slot) {l : Label} {t : Nat} (ht : p.target l = .ok t) :
    ∃ j, m.labelIndex? l = some j ∧ t = p.entry j := by
  obtain ⟨j, hj, rfl⟩ := (Plan.target_eq_ok (h.method ▸ h.distinct)).mp ht
  exact ⟨j, h.method ▸ hj, Plan.position_eq_entry p j⟩

/-- A switch chooses the same case by its keys. -/
theorem Cases.choose_keys (cases : Cases) (key : Int32) : cases.keys.choose cases.targets.length key = cases.choose key := by
  cases cases with
  | lookup pairs => simp [Cases.keys, SwitchKeys.choose, Cases.choose, Function.comp_def]
  | table low high targets => rfl

/-- A choice leads to the entry of the instruction of its label. -/
theorem Layout.Plan.Runs.choice (h : p.Runs m b slot) {cases : Cases} {default : Label} {ts : List Nat} {d : Nat}
    (hts : cases.targets.mapM p.target = .ok ts) (hd : p.target default = .ok d) (choice : Option Nat) :
    cases.labelOf default choice ∈ cases.targets ++ [default] ∧
      ∃ j, m.labelIndex? (cases.labelOf default choice) = some j ∧ (choice.bind (ts[·]?)).getD d = p.entry j := by
  have hall := mapM_eq_ok.mp hts
  have hdefault := h.target hd
  unfold Cases.labelOf
  cases choice with
  | none => exact ⟨by simp, hdefault⟩
  | some n =>
    simp only [Option.bind_some, ← Cases.getElem?_targets]
    by_cases hn : n < ts.length
    · have hn' : n < cases.targets.length := hall.length_eq ▸ hn
      simp only [List.getElem?_eq_getElem hn, List.getElem?_eq_getElem hn', Option.getD_some]
      exact ⟨List.mem_append_left _ (List.getElem_mem _), h.target (hall.get hn' hn)⟩
    · have hn' : ¬ n < cases.targets.length := hall.length_eq ▸ hn
      simp only [List.getElem?_eq_none (Nat.le_of_not_lt hn), List.getElem?_eq_none (Nat.le_of_not_lt hn'), Option.getD_none]
      exact ⟨by simp, hdefault⟩

/-! ## Turns of statements -/

namespace Poised

variable {before after rest : Stack} {xs : List OperandId} {e : Effect OperandId} {below : List (Cell V)} {o : OperandId} {r : RegisterId}

/-- The machines are related behind an operation that writes a local slot, where the body writes its register. -/
theorem related_store (hp : Poised M m p slot σ τ op before after xs rest e below) (h : p.Runs m b slot) (hn : op.pushes = none)
    (goes : e.goesOn) {k : Nat} (hslot : p.state.registers.slot? k = some r)
    (spares : ∀ o, .operand o ∈ after → ∀ r, p.state.registers.slot? k = some r → Lowering.Frozen (fun s o => s.mentions r o) p.state o)
    (x : V) :
    Related M m p slot { σ.advance with stack := below, locals := Function.update σ.locals k x } (τ.assign r x) := by
  obtain ⟨position, regs, heap⟩ := τ
  obtain rfl : heap = σ.heap := hp.related.heap
  refine hp.related_behind_next h hn goes ?_ (hp.unread_slot h hslot (fun o ho => spares o ho r hslot) x) (Or.inl rfl)
  intro k' r' hk'
  by_cases hkk : k' = k
  · subst hkk
    obtain rfl := Option.some.inj ((h.slots k' r hslot).symm.trans hk')
    rw [Function.update_self, Function.update_self]
  · have hrr : r' ≠ r := by
      rintro rfl
      exact hkk (h.slot_inj k' k r' hk' (h.slots k r' hslot))
    rw [Function.update_of_ne hrr, Function.update_of_ne hkk]
    exact hp.related.locals k' r' hk'

/-- Where an operation has no result, the machine of the body executes its statement. -/
theorem turn_statement (hp : Poised M m p slot σ τ op before after xs rest e below) (h : p.Runs m b slot) (hn : op.pushes = none) :
    Turn.Rel (Event.Agrees slot) (Related M m p slot) (σ.step M m) (τ.step M args b) := by
  obtain ⟨d, hunit, hd⟩ := hp.performed.draft h.coherent hp.here hn
  obtain ⟨stmt, hf, hstep⟩ := h.step_of_unit hp.related hunit
  have operand : ∀ {o im}, p.immediate σ.position o = .ok im → τ.operand M im = p.state.value M τ.regs τ.heap o :=
    Plan.eval_immediate_eq_value
  have made : ∀ {o}, o ∈ e.operands → (p.state.content o).isCall = false :=
    fun ho => hp.made _ (Operation.mem_of_mem_operands hp.performed.effect ho)
  rw [hp.turn, hstep, hn]
  cases e with
  | constant | load | operator | read => cases hd
  | call c =>
    cases hd
    simp only [Plan.finish, bind_eq_ok, pure_eq_ok] at hf
    obtain ⟨c', hc', rfl⟩ := hf
    have hmap : c'.map (τ.operand M) = c.map (p.state.value M τ.regs τ.heap) := Invoke.map_eq_of_mapM (fun _ _ => operand) hc'
    simp only [BodyState.execute, hmap, hp.related.heap]
    exact .next (.some (hp.agrees _)) (hp.related_written h hn rfl hp.performed.spares)
  | store k v =>
    simp only [Effect.draft?, Option.map_eq_some_iff] at hd
    obtain ⟨r, hr, rfl⟩ := hd
    simp only [Plan.finish, bind_eq_ok, pure_eq_ok] at hf
    obtain ⟨w, hw, rfl⟩ := hf
    rw [BodyState.execute_assign ((Plan.isCall_value hw).trans (made (List.mem_singleton_self v))), Plan.eval_content hw]
    exact .next .none (hp.related_store h hn rfl hr hp.performed.spares _)
  | increment k amount =>
    simp only [Effect.draft?, Option.map_eq_some_iff] at hd
    obtain ⟨r, hr, rfl⟩ := hd
    cases hf
    have hvalue : Value.eval M τ.regs τ.heap (.expr (.binary .add (.register r) (.constant (.int amount.toInt32)))) =
        M.operator σ.heap (.binary .add (σ.locals k) (M.constant (.int amount.toInt32))) := by
      rw [← hp.related.locals k r (h.slots k r hr), ← hp.related.heap]
      rfl
    rw [BodyState.execute_assign rfl, hvalue]
    exact .next .none (hp.related_store h hn rfl hr hp.performed.spares _)
  | write place v =>
    cases hd
    simp only [Plan.finish, bind_eq_ok, pure_eq_ok] at hf
    obtain ⟨place', hplace, w, hw, rfl⟩ := hf
    have hmap : place'.map (τ.operand M) = place.map (p.state.value M τ.regs τ.heap) := Ref.map_eq_of_mapM (fun _ _ => operand) hplace
    rw [BodyState.execute_write ((Plan.isCall_value hw).trans (made (by simp [Effect.operands]))), Plan.eval_content hw, hmap,
      hp.related.heap]
    exact .next (.some (hp.agrees _)) (hp.related_written h hn rfl hp.performed.spares)
  | branch way lhs rhs target =>
    cases hd
    simp only [Plan.finish, bind_eq_ok, pure_eq_ok] at hf
    obtain ⟨l, hl, r, hr, t, ht, rfl⟩ := hf
    obtain ⟨j, hj, rfl⟩ := h.target ht
    have hrhs : τ.operand M r = (rhs.map (p.state.value M τ.regs τ.heap) id).elim id M.constant := by
      cases rhs with
      | inl o => exact operand hr
      | inr c =>
        cases hr
        rfl
    simp only [Effect.map, StackState.perform, BodyState.execute, operand hl, hrhs]
    split
    · simp only [StackState.goTo, hj]
      exact .next (.some (hp.agrees _)) (hp.related_at h hn (List.mem_singleton_self target) hj)
    · exact .next (.some (hp.agrees _)) (hp.related_advance h hn rfl)
  | jump target =>
    cases hd
    simp only [Plan.finish, bind_eq_ok, pure_eq_ok] at hf
    obtain ⟨t, ht, rfl⟩ := hf
    obtain ⟨j, hj, rfl⟩ := h.target ht
    simp only [Effect.map, StackState.perform, StackState.goTo, hj]
    exact .next .none (hp.related_at h hn (List.mem_singleton_self target) hj)
  | «switch» key cases default =>
    cases hd
    simp only [Plan.finish, bind_eq_ok, pure_eq_ok] at hf
    obtain ⟨im, him, ts, hts, d, hd, rfl⟩ := hf
    have hlength := (mapM_eq_ok.mp hts).length_eq
    simp only [Effect.map, StackState.perform, BodyState.execute, operand him, ← hlength, Cases.choose_keys]
    obtain ⟨hl, j, hj, hentry⟩ := h.choice hts hd (cases.choose (M.toInt (p.state.value M τ.regs τ.heap key)))
    simp only [StackState.goTo, hj, hentry]
    exact .next (.some (hp.agrees _)) (hp.related_at h hn hl hj)
  | returnVoid =>
    cases hd
    cases hf
    exact .halt (hp.agrees _)
  | «return» v | throw v =>
    cases hd
    simp only [Plan.finish, bind_eq_ok, pure_eq_ok] at hf
    obtain ⟨im, him, rfl⟩ := hf
    rw [BodyState.execute, operand him]
    exact .halt (hp.agrees _)
  | enter v | exit v =>
    cases hd
    simp only [Plan.finish, bind_eq_ok, pure_eq_ok] at hf
    obtain ⟨im, him, rfl⟩ := hf
    rw [BodyState.execute, operand him]
    exact .next (.some (hp.agrees _)) (hp.related_advance h hn rfl)
  | nop =>
    cases hd
    cases hf
    exact .next .none (hp.related_advance h hn rfl)

end Poised
end ThreeAddress
