import ThreeAddress.Proofs.Layout.ControlFlow
import ThreeAddress.Proofs.Semantics.Values
import ThreeAddress.Proofs.Traversal.Uniform

/-!
# The two machines side by side

`Related` says that the machine of a body is where the stack machine is: in front of the statements of the same operation or of those behind
it, with the same heap, with the local slots in their registers, and with every value on the stack being what an operand of the simulated
stack stands for. `Plan.Runs` collects what this rests on.
-/

namespace ThreeAddress

open State

variable {V H : Type} {M : Meaning V H} {m : Method} {b : Body} {p : Layout.Plan} {slot : Nat → Option RegisterId}

/-- What the execution of a body rests on: it is laid out by the plan, every operation was visited with the results that every path brings to
it, and the registers of the local slots are none of those that hold values of operands. -/
structure Layout.Plan.Runs (p : Plan) (m : Method) (b : Body) (slot : Nat → Option RegisterId) : Prop where
  lays : ∃ keepLines, p.Lays keepLines b
  method : p.method = m
  distinct : m.LabelsDistinct
  handlers : m.handlerLabels = []
  uniform : m.Uniform
  coherent : p.state.Coherent m
  steady : p.state.Steady m
  visits : ∀ i ws op, Reaches m i ws → m.code[i]? = some op →
    ∃ before after, p.state.Comes m i before ws ∧ Visit m false i before after p.state op
  slots : ∀ k r, p.state.registers.slot? k = some r → slot k = some r
  slot_inj : ∀ k k' r, slot k = some r → slot k' = some r → k = k'
  apart : ∀ o r k, (p.state.operand o).register = some r → slot k ≠ some r

/-- The machines are at the same operation, with the same values. -/
structure Related (M : Meaning V H) (m : Method) (p : Layout.Plan) (slot : Nat → Option RegisterId) (σ : StackState V H) (τ : BodyState V H) :
    Prop where
  position : τ.position = p.entry σ.position
  heap : τ.heap = σ.heap
  locals : ∀ k r, slot k = some r → τ.regs r = σ.locals k
  stack : ∃ stack, p.state.Comes m σ.position stack (σ.stack.map Cell.wide) ∧
    Spells Cell.wide (fun o c => p.state.Stands M τ.regs τ.heap o c.value) stack σ.stack

theorem Related.reaches {σ : StackState V H} {τ : BodyState V H} (h : Related M m p slot σ τ) :
    Reaches m σ.position (σ.stack.map Cell.wide) := by
  obtain ⟨stack, comes, -⟩ := h.stack
  exact comes.reaches

namespace Layout.Plan.Runs

variable {i j : Nat} {op : Operation} {before after : Stack} {cells : List (Cell V)} {σ : StackState V H} {τ : BodyState V H}

/-- The entry of an instruction is the place of its own statement, whether it has one or not. -/
theorem entry_eq (h : p.Runs m b slot) (i : Nat) : p.entry i = p.unitStart i :=
  entry_of_no_entries h.steady.entries i

/-- The statement of an operation that has one stands where the run of the operation begins. -/
theorem stmt (h : p.Runs m b slot) {d : Draft} (hu : p.state.unit i = [d]) :
    ∃ located, b.stmts[p.unitStart i]? = some located ∧ p.finish i d = .ok located.stmt := by
  obtain ⟨keepLines, hl⟩ := h.lays
  exact hl.stmt (k := 0) (by rw [hu]; rfl)

/-- The operation was visited with operands that stand for the values on the stack, and finds the widths that it consumes. -/
theorem visit (h : p.Runs m b slot) (hr : Related M m p slot σ τ) (here : m.code[σ.position]? = some op) :
    ∃ before after ws, p.state.Comes m σ.position before (σ.stack.map Cell.wide) ∧ Visit m false σ.position before after p.state op ∧
      Spells Cell.wide (fun o c => p.state.Stands M τ.regs τ.heap o c.value) before σ.stack ∧
      op.reshape (σ.stack.map Cell.wide) = .ok ws := by
  obtain ⟨before, after, hs, hv⟩ := h.visits _ _ op hr.reaches here
  obtain ⟨stack, hstack, spells⟩ := hr.stack
  obtain ⟨ws, shape, -⟩ := hs.next here hv h.handlers (h.uniform.widths _ op _ here hr.reaches)
  exact ⟨before, after, ws, hs, hv, hstack.respell h.uniform hs spells, shape⟩

/-- The machines are related behind an operation, if the values are those of what the operation leaves on the simulated stack. -/
theorem related_next (h : p.Runs m b slot) (here : m.code[σ.position]? = some op)
    (hs : p.state.Comes m σ.position before (σ.stack.map Cell.wide)) (hv : Visit m false σ.position before after p.state op)
    (shape : op.reshape (σ.stack.map Cell.wide) = .ok (cells.map Cell.wide)) (leads : m.Leads σ.position op j)
    {locals : Nat → V} {heap : H} {regs : RegisterId → V} (hlocals : ∀ k r, slot k = some r → regs r = locals k)
    (spells : Spells Cell.wide (fun o c => p.state.Stands M regs heap o c.value) after cells) :
    Related M m p slot { position := j, stack := cells, locals, heap } { position := p.entry j, regs, heap } where
  position := rfl
  heap := rfl
  locals := hlocals
  stack := by
    obtain ⟨ws, shape', hnext⟩ := hs.next here hv h.handlers (h.uniform.widths _ op _ here hs.reaches)
    obtain rfl : cells.map Cell.wide = ws := by rwa [shape, Except.ok.injEq] at shape'
    exact ⟨after, hnext j leads, spells⟩

/-- Control that goes on behind an operation comes to the statement behind the one of the operation. -/
theorem entry_next (h : p.Runs m b slot) (hr : Related M m p slot σ τ) :
    p.entry (σ.position + 1) = τ.position + (p.state.unit σ.position).length := by
  rw [h.entry_eq, unitStart_succ, hr.position, h.entry_eq]

/-- An operation without a statement takes no turn of the machine of the body. -/
theorem related_wait (h : p.Runs m b slot) (hr : Related M m p slot σ τ) (here : m.code[σ.position]? = some op)
    (hs : p.state.Comes m σ.position before (σ.stack.map Cell.wide)) (hv : Visit m false σ.position before after p.state op)
    (shape : op.reshape (σ.stack.map Cell.wide) = .ok (cells.map Cell.wide)) (goes : op.goesOn) (unit : p.state.unit σ.position = [])
    (spells : Spells Cell.wide (fun o c => p.state.Stands M τ.regs τ.heap o c.value) after cells) :
    Related M m p slot { σ.advance with stack := cells } τ := by
  have leads : m.Leads σ.position op (σ.position + 1) := Method.leads_iff.mpr (Or.inl ⟨goes, rfl⟩)
  have hnext := h.related_next here hs hv shape leads hr.locals spells
  have hτ : ({ position := p.entry (σ.position + 1), regs := τ.regs, heap := τ.heap } : BodyState V H) = τ := by
    rw [h.entry_next hr, unit]
    rfl
  rw [hτ, hr.heap] at hnext
  exact hnext

/-- An operation that is not plain has no statement. -/
theorem unit_eq_nil (h : p.Runs m b slot) (here : m.code[i]? = some op) (plain : ¬ op.isPlain) : p.state.unit i = [] := by
  cases h.coherent.stage i (List.getElem?_eq_some_iff.mp here).1 with
  | untouched _ _ unit => exact unit
  | result built | statement built =>
    obtain rfl := Option.some.inj (here.symm.trans built.here)
    exact absurd ((h.coherent.stage i (List.getElem?_eq_some_iff.mp here).1).isPlain here built.row) plain
  | caught _ handler =>
    rw [h.handlers] at handler
    cases handler
  | shared _ entry => simp [State.handlerEntry?, h.steady.entries] at entry

end Layout.Plan.Runs

/-! ## Operations that move words alone -/

section
variable {op : Operation} {σ : StackState V H} {τ : BodyState V H}

/-- The stack machine goes on behind an operation, and the machine of the body waits. -/
def Waits (M : Meaning V H) (m : Method) (p : Layout.Plan) (slot : Nat → Option RegisterId) (σ : StackState V H) (τ : BodyState V H) : Prop :=
  ∃ σ', σ.step M m = .next none σ' ∧ Related M m p slot σ' τ ∧ σ'.position = σ.position + 1

theorem StackState.step_of_here (here : m.code[σ.position]? = some op) : σ.step M m = σ.execute M m op := by
  rw [step, here]

/-- Stack instructions, line numbers and labels take no turn of the machine of the body. -/
theorem Layout.Plan.Runs.waits_of_not_plain (h : p.Runs m b slot) (hr : Related M m p slot σ τ) (here : m.code[σ.position]? = some op)
    (plain : ¬ op.isPlain) : Waits M m p slot σ τ := by
  have hunit := h.unit_eq_nil here plain
  obtain ⟨before, after, ws, hs, hv, spells, shape⟩ := h.visit hr here
  cases hv with
  | plain hplain => exact absurd hplain plain
  | @shuffle how count words =>
    have shape' := shape
    rw [Operation.reshape, rearrange_map (show ∀ c : Cell V, id c.wide = c.wide from fun _ => rfl)] at shape'
    cases hcells : rearrange Cell.wide how count σ.stack with
    | error e => simp [hcells, Except.map] at shape'
    | ok cells =>
      rw [hcells] at shape'
      obtain rfl := Except.ok.inj shape'
      obtain ⟨stack', hwords, spells'⟩ := spells.rearrange hcells
      obtain rfl : after = stack' := Option.some.inj (words.symm.trans hwords)
      refine ⟨{ σ.advance with stack := cells }, ?_, ?_, rfl⟩
      · rw [StackState.step_of_here here, StackState.execute, hcells]
      · exact h.related_wait hr here hs (.shuffle words) shape rfl hunit spells'
  | line same =>
    refine ⟨σ.advance, ?_, ?_, rfl⟩
    · rw [StackState.step_of_here here, StackState.execute]
    · exact h.related_wait hr here hs (.line same) rfl rfl hunit (same ▸ spells)
  | label quiet same =>
    refine ⟨σ.advance, ?_, ?_, rfl⟩
    · rw [StackState.step_of_here here, StackState.execute]
    · exact h.related_wait hr here hs (.label quiet same) rfl rfl hunit (same ▸ spells)
  | caught handler =>
    rw [h.handlers] at handler
    cases handler

end
end ThreeAddress
