import ThreeAddress.Proofs.Cells.State

/-!
# Updates of a state with cells

The few ways in which lowering with cells changes its state, each as a function, and what the accessors give after it.
-/

namespace ThreeAddress.CellState

variable (s : CellState)

def withRegisters (registers : Registers) : CellState :=
  { s with registers }

/-- The operand stands for the register. -/
def bindTo (o : OperandId) (r : RegisterId) : CellState :=
  { s with operands := s.operands.modify o.index fun p => { p with register := some r } }

/-- The operand remembers one more use. -/
def withUse (o : OperandId) (k : CellId) : CellState :=
  { s with operands := s.operands.modify o.index fun p => { p with uses := p.uses ++ [k] } }

/-- One more operand. -/
def withOperand (p : CellOperand) : CellState :=
  { s with operands := s.operands.push p }

/-- One more cell. -/
def addCell (v : Rvalue CellId) : CellState :=
  { s with cells := s.cells.push v }

/-- The cell that the next new cell will be. -/
def nextCell : CellId :=
  ⟨s.cells.size⟩

/-- Some cells are written. -/
def write (ks : List CellId) (v : Rvalue CellId) : CellState :=
  { s with cells := ks.foldl (fun cells k => cells.setIfInBounds k.index v) s.cells }

def modifyUnit (i : Nat) (f : List Pending → List Pending) : CellState :=
  { s with units := s.units.modify i f }

def modifyFrame (i : Nat) (f : CellFrame → CellFrame) : CellState :=
  { s with frames := s.frames.modify i f }

section
variable {s : CellState} {o p : OperandId} {r : RegisterId} {i j : Nat} {k : CellId} {ks : List CellId} {q : CellOperand}
  {v : Rvalue CellId} {f : List Pending → List Pending} {g : CellFrame → CellFrame}

/-! ## Operands -/

/-- One operand is changed, and the others are as before. -/
theorem operand_modify {f : CellOperand → CellOperand} (h : o.index < s.operands.size) :
    CellState.operand { s with operands := s.operands.modify o.index f } p = if p = o then f (s.operand o) else s.operand p := by
  have hs : s.operands[o.index]? = some s.operands[o.index] := Array.getElem?_eq_getElem h
  obtain ⟨j⟩ := p
  obtain ⟨i⟩ := o
  by_cases hij : j = i
  · subst hij
    simp [operand, Array.getElem?_modify, hs]
  · simp [operand, Array.getElem?_modify, Ne.symm hij, hij]

/-- What the change of an operand leaves alone is as before for all of them. -/
theorem operand_modify_keeps {β : Type} (part : CellOperand → β) {f : CellOperand → CellOperand} (h : ∀ q, part (f q) = part q) :
    part (CellState.operand { s with operands := s.operands.modify o.index f } p) = part (s.operand p) := by
  simp only [operand, Array.getElem?_modify]
  split
  · cases s.operands[p.index]? with
    | none => rfl
    | some q => exact h q
  · rfl

theorem operand_bindTo (h : o.index < s.operands.size) :
    (s.bindTo o r).operand p = if p = o then { s.operand o with register := some r } else s.operand p :=
  operand_modify h

theorem insn_bindTo : ((s.bindTo o r).operand p).insn = (s.operand p).insn :=
  operand_modify_keeps CellOperand.insn fun _ => rfl

theorem value_bindTo : ((s.bindTo o r).operand p).value = (s.operand p).value :=
  operand_modify_keeps CellOperand.value fun _ => rfl

theorem uses_bindTo : ((s.bindTo o r).operand p).uses = (s.operand p).uses :=
  operand_modify_keeps CellOperand.uses fun _ => rfl

theorem operand_withUse (h : o.index < s.operands.size) :
    (s.withUse o k).operand p = if p = o then { s.operand o with uses := (s.operand o).uses ++ [k] } else s.operand p :=
  operand_modify h

theorem insn_withUse : ((s.withUse o k).operand p).insn = (s.operand p).insn :=
  operand_modify_keeps CellOperand.insn fun _ => rfl

theorem value_withUse : ((s.withUse o k).operand p).value = (s.operand p).value :=
  operand_modify_keeps CellOperand.value fun _ => rfl

theorem register_withUse : ((s.withUse o k).operand p).register = (s.operand p).register :=
  operand_modify_keeps CellOperand.register fun _ => rfl

theorem content_withUse : (s.withUse o k).content p = s.content p :=
  operand_modify_keeps CellOperand.content fun _ => rfl

theorem operand_withOperand : (s.withOperand q).operand p = if p.index = s.operands.size then q else s.operand p := by
  simp only [operand, withOperand, Array.getElem?_push]
  split <;> rfl

/-! ## Cells -/

theorem getElem?_cells (h : k.index < s.cells.size) : s.cells[k.index]? = some (s.cell k) := by
  rw [cell, Array.getElem?_eq_getElem h, Option.getD_some]

theorem cell_addCell : (s.addCell v).cell k = if k.index = s.cells.size then v else s.cell k := by
  simp only [cell, addCell, Array.getElem?_push]
  split <;> rfl

@[simp] theorem size_addCell : (s.addCell v).cells.size = s.cells.size + 1 :=
  Array.size_push _

theorem write_cons : s.write (k :: ks) v = (s.write [k] v).write ks v :=
  rfl

@[simp] theorem size_write : (s.write ks v).cells.size = s.cells.size := by
  induction ks generalizing s with
  | nil => rfl
  | cons k ks ih =>
    rw [write_cons, ih]
    exact Array.size_setIfInBounds

/-- Cells that are written hold what was written, the others what they held. -/
theorem cell_write (h : ∀ k ∈ ks, k.index < s.cells.size) : (s.write ks v).cell k = if k ∈ ks then v else s.cell k := by
  induction ks generalizing s with
  | nil => rfl
  | cons j ks ih =>
    have one : (s.write [j] v).cell k = if k = j then v else s.cell k := by
      have hj := h j List.mem_cons_self
      obtain ⟨i⟩ := k
      obtain ⟨j⟩ := j
      by_cases hij : i = j
      · subst hij
        have hi : i < s.cells.size := hj
        simp [cell, write, hi]
      · simp [cell, write, hij, Array.getElem?_setIfInBounds_ne (Ne.symm hij)]
    rw [write_cons, ih fun k hk => by rw [size_write]; exact h k (List.mem_cons_of_mem _ hk), one]
    by_cases hk : k ∈ ks
    · simp [hk]
    · by_cases hkj : k = j <;> simp [hk, hkj]

/-! ## Units, frames and definitions -/

theorem unit_modifyUnit (h : i < s.units.size) : (s.modifyUnit i f).unit j = if j = i then f (s.unit i) else s.unit j := by
  by_cases hji : j = i
  · subst hji
    simp [unit, modifyUnit, Array.getElem_modify, h]
  · simp [unit, modifyUnit, Array.getElem?_modify, Ne.symm hji, hji]

theorem frame_modifyFrame (h : i < s.frames.size) : (s.modifyFrame i g).frame j = if j = i then g (s.frame i) else s.frame j := by
  by_cases hji : j = i
  · subst hji
    simp [frame, modifyFrame, Array.getElem_modify, h]
  · simp [frame, modifyFrame, Array.getElem?_modify, Ne.symm hji, hji]

/-- Where an instruction has something that defines a register, statements may be added behind those that it has. -/
theorem definition?_modifyUnit (h : i < s.units.size) (hf : s.unit i = [] ∨ (f (s.unit i)).head? = (s.unit i).head?)
    (hk : s.definition? j = some k) : (s.modifyUnit i f).definition? j = some k := by
  have hunit : ((s.modifyUnit i f).unit j).head? = (s.unit j).head? ∨ s.unit j = [] := by
    rw [unit_modifyUnit h]
    split
    · rename_i hji
      subst hji
      exact hf.symm
    · exact Or.inl rfl
  unfold definition? at hk ⊢
  have hentry : CellState.handlerEntry? (s.modifyUnit i f) j = s.handlerEntry? j := rfl
  rw [hentry]
  cases he : s.handlerEntry? j with
  | some e =>
    rw [he] at hk
    exact hk
  | none =>
    rw [he] at hk
    rcases hunit with hsame | hnil
    · rw [hsame]
      exact hk
    · rw [hnil] at hk
      cases hk

end
end ThreeAddress.CellState
