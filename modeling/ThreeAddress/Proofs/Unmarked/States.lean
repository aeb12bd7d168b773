import ThreeAddress.Proofs.Lowering.Plain
import ThreeAddress.Proofs.Lowering.Steps
import ThreeAddress.Proofs.Unmarked.Code

/-!
# States without line numbers

`Mirrors` relates a state of lowering a method to one of lowering it without line numbers: the same operands, stack, frames and statements, at
the places of their instructions, and the same registers but for names. `Matches` compares steps from two such states: both fail, or both
succeed with the same result and leave two such states. Every way to build a step keeps it, and so lowering an operation does.
-/

namespace ThreeAddress

/-! ## Registers -/

/-- A register without its name. -/
def Register.unnamed (r : Register) : RegisterId × ValueType :=
  (r.id, r.type)

namespace Registers

/-- The registers are the same but for names. -/
structure Same (rs rs' : Registers) : Prop where
  maxLocals : rs'.maxLocals = rs.maxLocals
  slots : rs'.slots = rs.slots
  synthesized : rs'.synthesized = rs.synthesized
  all : rs'.all.map Register.unnamed = rs.all.map Register.unnamed

variable {rs rs' : Registers} {k : Nat}

theorem Same.size (h : rs.Same rs') : rs'.all.size = rs.all.size := by
  have hsize := congrArg Array.size h.all
  simpa using hsize

theorem Same.slot? (h : rs.Same rs') (k : Nat) : rs'.slot? k = rs.slot? k := by
  rw [Registers.slot?, Registers.slot?, h.slots]

/-- A new register is of the same number, whatever its name. -/
theorem Same.create (h : rs.Same rs') (name name' : String) :
    (rs'.create name').1 = (rs.create name).1 ∧ (rs.create name).2.Same (rs'.create name').2 := by
  refine ⟨congrArg RegisterId.mk h.size, h.maxLocals, h.slots, h.synthesized, ?_⟩
  simp [Registers.create, Register.unnamed, h.all, h.size]

theorem Same.fresh (h : rs.Same rs') : rs'.fresh.1 = rs.fresh.1 ∧ rs.fresh.2.Same rs'.fresh.2 := by
  obtain ⟨hid, hsame⟩ := h.create ("$stack" ++ toString (rs.maxLocals + rs.synthesized)) ("$stack" ++ toString (rs'.maxLocals + rs'.synthesized))
  exact ⟨hid, hsame.maxLocals, hsame.slots, congrArg (· + 1) hsame.synthesized, hsame.all⟩

theorem Same.slot (h : rs.Same rs') (k : Nat) :
    Together (fun p p' => p'.1 = p.1 ∧ p.2.Same p'.2) (rs.slot k) (rs'.slot k) := by
  unfold Registers.slot
  rw [h.maxLocals, h.slot?]
  split
  · exact trivial
  · split
    · exact ⟨rfl, h⟩
    · obtain ⟨hid, hsame⟩ := h.create (rs.slotName k) (rs'.slotName k)
      refine ⟨hid, hsame.maxLocals, ?_, hsame.synthesized, hsame.all⟩
      exact congrArg₂ (fun slots id => slots ++ [(k, id)]) hsame.slots hid

theorem Same.declare (h : rs.Same rs') (k : Nat) (type : ValueType) :
    Together (fun p p' => p'.1 = p.1 ∧ p.2.Same p'.2) (rs.declare k type) (rs'.declare k type) := by
  unfold Registers.declare
  refine (h.slot k).bind ?_
  rintro ⟨id, rs₁⟩ ⟨id', rs₁'⟩ ⟨rfl, hsame⟩
  refine ⟨rfl, hsame.maxLocals, hsame.slots, hsame.synthesized, ?_⟩
  refine Array.ext (by simp [hsame.size]) fun i hi hi' => ?_
  have hall : (rs₁'.all.map Register.unnamed)[i]? = (rs₁.all.map Register.unnamed)[i]? := by rw [hsame.all]
  simp only [Array.size_map, Array.size_modify] at hi hi'
  simp only [Array.getElem?_map, Array.getElem?_eq_getElem hi, Array.getElem?_eq_getElem hi', Option.map_some, Option.some.injEq,
    Register.unnamed, Prod.mk.injEq] at hall
  simp only [Array.getElem_map, Array.getElem_modify]
  split <;> simp [Register.unnamed, hall]

end Registers

namespace State

variable {m : Method} {s s' : State} {i : Nat} {o : OperandId} {r : RegisterId}

/-- An operand that does not exist is not bound. -/
theorem bindTo_of_not_known (h : ¬ s.Known o) : s.bindTo o r = s := by
  have hsize : s.operands.size ≤ o.index := Nat.le_of_not_lt h
  have hoperands : s.operands.modify o.index (fun p => { p with register := some r }) = s.operands := by
    refine Array.ext (by simp) fun i hi _ => ?_
    rw [Array.size_modify] at hi
    rw [Array.getElem_modify, if_neg (by omega)]
  rw [State.bindTo, hoperands]

/-! ## States that mirror each other -/

/-- A state of lowering a method without line numbers is that of lowering the method, with instructions at their places. Every operand that
the state refers to exists, and was produced by an instruction that stays. -/
structure Mirrors (m : Method) (s s' : State) : Prop where
  registers : s.registers.Same s'.registers
  size : s'.operands.size = s.operands.size
  operand : ∀ o, s'.operand o = { s.operand o with insn := m.place (s.operand o).insn }
  stack : s'.stack = s.stack
  frames : s.frames.size = m.code.length ∧ s'.frames.size = m.unmarked.code.length
  units : s.units.size = m.code.length ∧ s'.units.size = m.unmarked.code.length
  frame : ∀ i, m.Stays i → s'.frame (m.place i) = s.frame i
  unit : ∀ i, m.Stays i → s'.unit (m.place i) = s.unit i
  unit_line : ∀ i, ¬ m.Stays i → s.unit i = []
  entries : s'.handlerEntries = s.handlerEntries.map fun e => { e with insn := m.place e.insn }
  entry_stays : ∀ e ∈ s.handlerEntries, m.Stays e.insn
  insn_stays : ∀ o, s.Known o → m.Stays (s.operand o).insn
  stack_known : s.StackKnown s.stack
  rows_known : ∀ i row, row ∈ (s.frame i).rows → ∀ o ∈ row, s.Known o
  out_known : ∀ i o, (s.frame i).out = some o → s.Known o

namespace Mirrors

theorem known (h : s.Mirrors m s') : s'.Known o ↔ s.Known o := by
  rw [Known, Known, h.size]

theorem nextOperand (h : s.Mirrors m s') : s'.nextOperand = s.nextOperand := by
  rw [State.nextOperand, State.nextOperand, h.size]

theorem content (h : s.Mirrors m s') (o : OperandId) : s'.content o = s.content o := by
  rw [State.content, State.content, h.operand]

theorem handlerEntry? (h : s.Mirrors m s') (hi : m.Stays i) :
    s'.handlerEntry? (m.place i) = (s.handlerEntry? i).map fun e => { e with insn := m.place e.insn } := by
  have all : ∀ es : List HandlerEntry, (∀ e ∈ es, m.Stays e.insn) →
      es.find? ((·.insn == m.place i) ∘ fun e => { e with insn := m.place e.insn }) = es.find? (·.insn == i) := by
    intro es hes
    induction es with
    | nil => rfl
    | cons e es ih =>
      have he := hes e List.mem_cons_self
      have hrest := ih fun e' he' => hes e' (List.mem_cons_of_mem e he')
      by_cases heq : e.insn = i
      · simp [heq]
      · have hne : m.place e.insn ≠ m.place i := fun hplace => heq (he.place_inj hi hplace)
        simpa [heq, hne] using hrest
  rw [State.handlerEntry?, State.handlerEntry?, h.entries, List.find?_map, all _ h.entry_stays]

/-- What an operand stands for mentions the same registers. -/
theorem mentions (h : s.Mirrors m s') (r : RegisterId) (o : OperandId) : s'.mentions r o = s.mentions r o := by
  rw [State.mentions, State.mentions, h.content]
  split
  · rfl
  · refine List.any_congr rfl fun p => ?_
    split
    · rename_i hlt
      exact h.mentions r p
    · rfl
termination_by o.index

/-- Operands stand for the same if they did. -/
theorem equivalent (h : s.Mirrors m s') (a b : OperandId) : s'.equivalent a b = s.equivalent a b := by
  rw [State.equivalent, State.equivalent, h.content, h.content]
  congr 2
  refine List.all_congr rfl fun p => ?_
  dsimp only
  split
  · rename_i hlt
    exact h.equivalent p.1 p.2
  · rfl
termination_by a.index

theorem equivalentStacks (h : s.Mirrors m s') (a b : Stack) : s'.equivalentStacks a b = s.equivalentStacks a b := by
  have words : ∀ v w, s'.equivalentWords v w = s.equivalentWords v w := by
    intro v w
    cases v <;> cases w <;> first | rfl | exact h.equivalent _ _
  simp only [State.equivalentStacks, words]

/-- The statements of the instructions before one. -/
theorem flatten_take_units (h : s.Mirrors m s') (i : Nat) :
    (s'.units.toList.take (m.place i)).flatten = (s.units.toList.take i).flatten := by
  have step : ∀ (t : State) (j : Nat), (t.units.toList.take (j + 1)).flatten = (t.units.toList.take j).flatten ++ t.unit j := by
    intro t j
    rw [List.take_add_one, List.flatten_append, Array.getElem?_toList, State.unit]
    cases t.units[j]? <;> simp
  induction i with
  | zero => rfl
  | succ i ih =>
    by_cases hi : m.Stays i
    · rw [hi.place_succ, step, step, ih, h.unit i hi]
    · rw [Method.place_succ_of_not_stays hi, step, ih, h.unit_line i hi, List.append_nil]

/-- The statements of all instructions are the same, in the same order. -/
theorem flatten_units (h : s.Mirrors m s') : s'.units.toList.flatten = s.units.toList.flatten := by
  have hall := h.flatten_take_units m.code.length
  rwa [Method.place_length, ← h.units.1, ← h.units.2, List.take_of_length_le (by simp), List.take_of_length_le (by simp)] at hall

/-! ## Updates -/

theorem withStack {stack : Stack} (h : s.Mirrors m s') (hk : s.StackKnown stack) : (s.withStack stack).Mirrors m (s'.withStack stack) :=
  { h with
    stack := rfl
    stack_known := hk }

theorem withRegisters {rs rs' : Registers} (h : s.Mirrors m s') (hr : rs.Same rs') : (s.withRegisters rs).Mirrors m (s'.withRegisters rs') :=
  { h with registers := hr }

theorem bindTo (h : s.Mirrors m s') (o : OperandId) (r : RegisterId) : (s.bindTo o r).Mirrors m (s'.bindTo o r) where
  registers := h.registers
  size := by rw [bindTo_size, bindTo_size, h.size]
  operand p := by
    by_cases hp : p = o
    · subst hp
      by_cases hk : s.Known p
      · rw [operand_bindTo_self hk, operand_bindTo_self (h.known.mpr hk), h.operand]
      · rw [bindTo_of_not_known hk, bindTo_of_not_known (mt h.known.mp hk), h.operand]
    · rw [operand_bindTo_of_ne hp, operand_bindTo_of_ne hp, h.operand]
  stack := h.stack
  frames := h.frames
  units := h.units
  frame := h.frame
  unit := h.unit
  unit_line := h.unit_line
  entries := h.entries
  entry_stays := h.entry_stays
  insn_stays p hp := by
    rw [bindTo_insn]
    exact h.insn_stays p (by simpa [Known] using hp)
  stack_known p hp := by simpa [Known] using h.stack_known p hp
  rows_known i row hrow p hp := by simpa [Known] using h.rows_known i row hrow p hp
  out_known i p hp := by simpa [Known] using h.out_known i p hp

theorem modifyUnit (h : s.Mirrors m s') (hi : m.Stays i) (f : List Draft → List Draft) :
    (s.modifyUnit i f).Mirrors m (s'.modifyUnit (m.place i) f) :=
  { h with
    units := by simpa using h.units
    unit := fun j hj => by
      by_cases hji : j = i
      · subst hji
        have hlt : j < s.units.size := h.units.1 ▸ hj.lt
        have hlt' : m.place j < s'.units.size := h.units.2 ▸ hj.place_lt_length
        rw [unit_modifyUnit_self hlt, unit_modifyUnit_self hlt', h.unit j hj]
      · have hne : m.place j ≠ m.place i := fun heq => hji (hj.place_inj hi heq)
        rw [unit_modifyUnit_of_ne hji, unit_modifyUnit_of_ne hne, h.unit j hj]
    unit_line := fun j hj => by
      have hne : j ≠ i := fun heq => hj (heq ▸ hi)
      rw [unit_modifyUnit_of_ne hne, h.unit_line j hj] }

theorem modifyFrame (h : s.Mirrors m s') (hi : m.Stays i) {f : Frame → Frame}
    (rows : ∀ row ∈ (f (s.frame i)).rows, ∀ o ∈ row, s.Known o) (out : ∀ o, (f (s.frame i)).out = some o → s.Known o) :
    (s.modifyFrame i f).Mirrors m (s'.modifyFrame (m.place i) f) :=
  { h with
    frames := by simpa using h.frames
    frame := fun j hj => by
      by_cases hji : j = i
      · subst hji
        have hlt : j < s.frames.size := h.frames.1 ▸ hj.lt
        have hlt' : m.place j < s'.frames.size := h.frames.2 ▸ hj.place_lt_length
        rw [frame_modifyFrame_self hlt, frame_modifyFrame_self hlt', h.frame j hj]
      · have hne : m.place j ≠ m.place i := fun heq => hji (hj.place_inj hi heq)
        rw [frame_modifyFrame_of_ne hji, frame_modifyFrame_of_ne hne, h.frame j hj]
    rows_known := fun j row hrow o ho => by
      rcases frame_modifyFrame_or s i f j with hf | ⟨rfl, hf⟩ <;> rw [hf] at hrow
      · exact h.rows_known j row hrow o ho
      · exact rows row hrow o ho
    out_known := fun j o ho => by
      rcases frame_modifyFrame_or s i f j with hf | ⟨rfl, hf⟩ <;> rw [hf] at ho
      · exact h.out_known j o ho
      · exact out o ho }

theorem withOperand (h : s.Mirrors m s') (hi : m.Stays i) (v : Rvalue OperandId) (r : Option RegisterId) :
    (s.withOperand ⟨i, v, r⟩).Mirrors m (s'.withOperand ⟨m.place i, v, r⟩) :=
  { h with
    size := by rw [withOperand_size, withOperand_size, h.size]
    operand := fun p => by
      by_cases hp : p = s.nextOperand
      · subst hp
        rw [operand_withOperand_next, ← h.nextOperand, operand_withOperand_next]
      · rw [operand_withOperand_of_ne hp, operand_withOperand_of_ne (h.nextOperand ▸ hp), h.operand]
    insn_stays := fun p hp => by
      rcases known_withOperand.mp hp with hold | rfl
      · rw [hold.operand_withOperand]
        exact h.insn_stays p hold
      · rw [operand_withOperand_next]
        exact hi
    stack_known := fun p hp => known_withOperand.mpr (Or.inl (h.stack_known p hp))
    rows_known := fun j row hrow p hp => known_withOperand.mpr (Or.inl (h.rows_known j row hrow p hp))
    out_known := fun j p hp => known_withOperand.mpr (Or.inl (h.out_known j p hp)) }

end Mirrors
end State
end ThreeAddress
