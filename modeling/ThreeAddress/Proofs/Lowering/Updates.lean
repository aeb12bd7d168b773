import ThreeAddress.Lowering.Traversal

/-!
# Updates of the state

The few ways in which lowering changes its state, each as a function, and what every accessor gives after each of them. Proofs about
lowering need no more than this of how the state is kept.
-/

namespace ThreeAddress

namespace State

variable (s : State)

/-- The operand exists. -/
def Known (o : OperandId) : Prop :=
  o.index < s.operands.size

/-- The register exists and belongs to no local slot. -/
def Synthesized (r : RegisterId) : Prop :=
  r.index < s.registers.all.size ∧ ∀ k, s.registers.slot? k ≠ some r

def withRegisters (registers : Registers) : State :=
  { s with registers }

/-- The operand stands for the register. -/
def bindTo (o : OperandId) (r : RegisterId) : State :=
  { s with operands := s.operands.modify o.index fun p => { p with register := some r } }

def modifyUnit (i : Nat) (f : List Draft → List Draft) : State :=
  { s with units := s.units.modify i f }

def modifyFrame (i : Nat) (f : Frame → Frame) : State :=
  { s with frames := s.frames.modify i f }

/-- One more operand. -/
def withOperand (p : Operand) : State :=
  { s with operands := s.operands.push p }

/-- The operand that the next new operand will be. -/
def nextOperand : OperandId :=
  ⟨s.operands.size⟩

section
variable {s : State} {o p : OperandId} {r : RegisterId} {i j : Nat} {stack : Stack} {rs : Registers} {q : Operand}
  {f : List Draft → List Draft} {g : Frame → Frame}

/-! ## A stack or registers -/

@[simp] theorem withStack_stack : (s.withStack stack).stack = stack := rfl
@[simp] theorem withStack_registers : (s.withStack stack).registers = s.registers := rfl
@[simp] theorem withStack_operands : (s.withStack stack).operands = s.operands := rfl
@[simp] theorem withStack_operand : (s.withStack stack).operand o = s.operand o := rfl
@[simp] theorem withStack_frames : (s.withStack stack).frames = s.frames := rfl
@[simp] theorem withStack_frame : (s.withStack stack).frame i = s.frame i := rfl
@[simp] theorem withStack_units : (s.withStack stack).units = s.units := rfl
@[simp] theorem withStack_unit : (s.withStack stack).unit i = s.unit i := rfl
@[simp] theorem withStack_handlerEntries : (s.withStack stack).handlerEntries = s.handlerEntries := rfl
@[simp] theorem withRegisters_stack : (s.withRegisters rs).stack = s.stack := rfl
@[simp] theorem withRegisters_registers : (s.withRegisters rs).registers = rs := rfl
@[simp] theorem withRegisters_operands : (s.withRegisters rs).operands = s.operands := rfl
@[simp] theorem withRegisters_operand : (s.withRegisters rs).operand o = s.operand o := rfl
@[simp] theorem withRegisters_frames : (s.withRegisters rs).frames = s.frames := rfl
@[simp] theorem withRegisters_frame : (s.withRegisters rs).frame i = s.frame i := rfl
@[simp] theorem withRegisters_units : (s.withRegisters rs).units = s.units := rfl
@[simp] theorem withRegisters_unit : (s.withRegisters rs).unit i = s.unit i := rfl
@[simp] theorem withRegisters_handlerEntries : (s.withRegisters rs).handlerEntries = s.handlerEntries := rfl

@[simp] theorem known_withStack : (s.withStack stack).Known o ↔ s.Known o := Iff.rfl
@[simp] theorem known_withRegisters : (s.withRegisters rs).Known o ↔ s.Known o := Iff.rfl

/-! ## An operand -/

@[simp] theorem bindTo_stack : (s.bindTo o r).stack = s.stack := rfl
@[simp] theorem bindTo_registers : (s.bindTo o r).registers = s.registers := rfl
@[simp] theorem bindTo_size : (s.bindTo o r).operands.size = s.operands.size := by simp [bindTo]
@[simp] theorem bindTo_frames : (s.bindTo o r).frames = s.frames := rfl
@[simp] theorem bindTo_frame : (s.bindTo o r).frame i = s.frame i := rfl
@[simp] theorem bindTo_units : (s.bindTo o r).units = s.units := rfl
@[simp] theorem bindTo_unit : (s.bindTo o r).unit i = s.unit i := rfl
@[simp] theorem bindTo_handlerEntries : (s.bindTo o r).handlerEntries = s.handlerEntries := rfl

theorem operand_bindTo_self (h : s.Known o) : (s.bindTo o r).operand o = { s.operand o with register := some r } := by
  have hs : s.operands[o.index]? = some s.operands[o.index] := Array.getElem?_eq_getElem h
  simp [operand, bindTo, Array.getElem?_modify, hs]

theorem operand_bindTo_of_ne (h : p ≠ o) : (s.bindTo o r).operand p = s.operand p := by
  have hi : o.index ≠ p.index := fun he => h (by cases p; cases o; simp_all)
  simp [operand, bindTo, Array.getElem?_modify, hi]

/-- Only its register changes when an operand is bound. -/
@[simp] theorem bindTo_insn : ((s.bindTo o r).operand p).insn = (s.operand p).insn := by
  by_cases hp : p = o
  · subst hp
    by_cases hk : s.Known p
    · rw [operand_bindTo_self hk]
    · have : s.operands[p.index]? = none := Array.getElem?_eq_none (by simpa [Known] using hk)
      simp [operand, bindTo, Array.getElem?_modify, this]
  · rw [operand_bindTo_of_ne hp]

@[simp] theorem bindTo_value : ((s.bindTo o r).operand p).value = (s.operand p).value := by
  by_cases hp : p = o
  · subst hp
    by_cases hk : s.Known p
    · rw [operand_bindTo_self hk]
    · have : s.operands[p.index]? = none := Array.getElem?_eq_none (by simpa [Known] using hk)
      simp [operand, bindTo, Array.getElem?_modify, this]
  · rw [operand_bindTo_of_ne hp]

@[simp] theorem withOperand_stack : (s.withOperand q).stack = s.stack := rfl
@[simp] theorem withOperand_registers : (s.withOperand q).registers = s.registers := rfl
@[simp] theorem withOperand_size : (s.withOperand q).operands.size = s.operands.size + 1 := by simp [withOperand]
@[simp] theorem withOperand_frames : (s.withOperand q).frames = s.frames := rfl
@[simp] theorem withOperand_frame : (s.withOperand q).frame i = s.frame i := rfl
@[simp] theorem withOperand_units : (s.withOperand q).units = s.units := rfl
@[simp] theorem withOperand_unit : (s.withOperand q).unit i = s.unit i := rfl
@[simp] theorem withOperand_handlerEntries : (s.withOperand q).handlerEntries = s.handlerEntries := rfl

@[simp] theorem operand_withOperand_next : (s.withOperand q).operand s.nextOperand = q := by
  simp [operand, withOperand, nextOperand]

theorem operand_withOperand_of_ne (h : p ≠ s.nextOperand) : (s.withOperand q).operand p = s.operand p := by
  have hi : p.index ≠ s.operands.size := fun he => h (by cases p; simp_all [nextOperand])
  simp [operand, withOperand, Array.getElem?_push, hi]

/-- The next operand is none that exists. -/
theorem Known.ne_next (h : s.Known o) : o ≠ s.nextOperand := by
  rintro rfl
  simp [Known, nextOperand] at h

theorem Known.operand_withOperand (h : s.Known o) : (s.withOperand q).operand o = s.operand o :=
  operand_withOperand_of_ne h.ne_next

/-- The operands after a new one: those before it, and itself. -/
theorem known_withOperand : (s.withOperand q).Known o ↔ s.Known o ∨ o = s.nextOperand := by
  obtain ⟨i⟩ := o
  simp only [Known, withOperand_size, nextOperand, OperandId.mk.injEq]
  omega

/-! ## A unit or a frame -/

@[simp] theorem modifyUnit_stack : (s.modifyUnit i f).stack = s.stack := rfl
@[simp] theorem modifyUnit_registers : (s.modifyUnit i f).registers = s.registers := rfl
@[simp] theorem modifyUnit_operands : (s.modifyUnit i f).operands = s.operands := rfl
@[simp] theorem modifyUnit_operand : (s.modifyUnit i f).operand o = s.operand o := rfl
@[simp] theorem modifyUnit_frames : (s.modifyUnit i f).frames = s.frames := rfl
@[simp] theorem modifyUnit_frame : (s.modifyUnit i f).frame j = s.frame j := rfl
@[simp] theorem modifyUnit_size : (s.modifyUnit i f).units.size = s.units.size := by simp [modifyUnit]
@[simp] theorem modifyUnit_handlerEntries : (s.modifyUnit i f).handlerEntries = s.handlerEntries := rfl

theorem unit_modifyUnit_self (h : i < s.units.size) : (s.modifyUnit i f).unit i = f (s.unit i) := by
  simp [unit, modifyUnit, Array.getElem_modify, h]

theorem unit_modifyUnit_of_ne (h : j ≠ i) : (s.modifyUnit i f).unit j = s.unit j := by
  simp [unit, modifyUnit, Array.getElem?_modify, h.symm]

@[simp] theorem modifyFrame_stack : (s.modifyFrame i g).stack = s.stack := rfl
@[simp] theorem modifyFrame_registers : (s.modifyFrame i g).registers = s.registers := rfl
@[simp] theorem modifyFrame_operands : (s.modifyFrame i g).operands = s.operands := rfl
@[simp] theorem modifyFrame_operand : (s.modifyFrame i g).operand o = s.operand o := rfl
@[simp] theorem modifyFrame_size : (s.modifyFrame i g).frames.size = s.frames.size := by simp [modifyFrame]
@[simp] theorem modifyFrame_units : (s.modifyFrame i g).units = s.units := rfl
@[simp] theorem modifyFrame_unit : (s.modifyFrame i g).unit j = s.unit j := rfl
@[simp] theorem modifyFrame_handlerEntries : (s.modifyFrame i g).handlerEntries = s.handlerEntries := rfl

theorem frame_modifyFrame_self (h : i < s.frames.size) : (s.modifyFrame i g).frame i = g (s.frame i) := by
  simp [frame, modifyFrame, Array.getElem_modify, h]

theorem frame_modifyFrame_of_ne (h : j ≠ i) : (s.modifyFrame i g).frame j = s.frame j := by
  simp [frame, modifyFrame, Array.getElem?_modify, h.symm]

/-- The unit of any instruction after that of one was changed. -/
theorem unit_modifyUnit_or (s : State) (i : Nat) (f : List Draft → List Draft) (j : Nat) :
    (s.modifyUnit i f).unit j = s.unit j ∨ (j = i ∧ (s.modifyUnit i f).unit j = f (s.unit i)) := by
  by_cases hji : j = i
  · subst hji
    by_cases hlt : j < s.units.size
    · exact Or.inr ⟨rfl, unit_modifyUnit_self hlt⟩
    · left
      simp [unit, modifyUnit, Array.getElem?_modify, Array.getElem?_eq_none (Nat.le_of_not_lt hlt)]
  · exact Or.inl (unit_modifyUnit_of_ne hji)

/-- The frame of any instruction after that of one was changed. -/
theorem frame_modifyFrame_or (s : State) (i : Nat) (g : Frame → Frame) (j : Nat) :
    (s.modifyFrame i g).frame j = s.frame j ∨ (j = i ∧ (s.modifyFrame i g).frame j = g (s.frame i)) := by
  by_cases hji : j = i
  · subst hji
    by_cases hlt : j < s.frames.size
    · exact Or.inr ⟨rfl, frame_modifyFrame_self hlt⟩
    · left
      simp [frame, modifyFrame, Array.getElem?_modify, Array.getElem?_eq_none (Nat.le_of_not_lt hlt)]
  · exact Or.inl (frame_modifyFrame_of_ne hji)

/-- A unit may be changed to what it is. -/
@[simp] theorem modifyUnit_id : s.modifyUnit i id = s := by
  have hu : s.units.modify i id = s.units := Array.ext (by simp) (by simp [Array.getElem_modify])
  simp only [modifyUnit, hu]

/-- Two changes of one frame are one. -/
theorem modifyFrame_modifyFrame {g' : Frame → Frame} : (s.modifyFrame i g).modifyFrame i g' = s.modifyFrame i fun x => g' (g x) := by
  have hf : (s.frames.modify i g).modify i g' = s.frames.modify i fun x => g' (g x) := by
    refine Array.ext (by simp) fun j h₁ h₂ => ?_
    simp only [Array.getElem_modify]
    split <;> rfl
  simp only [modifyFrame, hf]

/-- A frame that holds anything is one of an instruction. -/
theorem lt_of_frame_ne_default (h : s.frame i ≠ default) : i < s.frames.size := by
  refine Nat.lt_of_not_le fun hle => h ?_
  simp [frame, Array.getElem?_eq_none hle]

/-- A unit that holds anything is one of an instruction. -/
theorem lt_of_unit_ne_nil (h : s.unit i ≠ []) : i < s.units.size := by
  refine Nat.lt_of_not_le fun hle => h ?_
  simp [unit, Array.getElem?_eq_none hle]

/-- An operand with a register exists. -/
theorem known_of_register (h : (s.operand o).register = some r) : s.Known o := by
  refine Nat.lt_of_not_le fun hle => ?_
  simp [operand, Array.getElem?_eq_none hle, default] at h

end
end State

/-! ## Registers -/

namespace Registers

variable {rs rs' : Registers} {k k' : Nat} {r r' : RegisterId}

/-- The register of a slot stays, whatever slots come into use. -/
theorem slot?_of_slot (h : rs.slot k = .ok (r, rs')) (h' : rs.slot? k' = some r') : rs'.slot? k' = some r' := by
  unfold slot at h
  split at h
  · simp at h
  · split at h
    · simp only [Except.ok.injEq, Prod.mk.injEq] at h
      rw [← h.2]
      exact h'
    · simp only [Except.ok.injEq, Prod.mk.injEq] at h
      rw [← h.2]
      simp only [slot?, create, List.find?_append, Option.map_eq_some_iff] at h' ⊢
      obtain ⟨p, hp, hr⟩ := h'
      exact ⟨p, by simp [hp], hr⟩

/-- A slot that is asked for is in use afterwards. -/
theorem slot?_self (h : rs.slot k = .ok (r, rs')) : rs'.slot? k = some r := by
  unfold slot at h
  split at h
  · simp at h
  · split at h
    · rename_i id hid
      simp only [Except.ok.injEq, Prod.mk.injEq] at h
      rw [← h.2, ← h.1]
      exact hid
    · rename_i hnone
      simp only [Except.ok.injEq, Prod.mk.injEq] at h
      rw [← h.2, ← h.1]
      simp only [slot?, Option.map_eq_none_iff] at hnone
      simp [slot?, create, hnone]

/-- What a slot in use is after another was asked for: as before, or the slot asked for with a register that is new. -/
theorem slot?_slot (h : rs.slot k = .ok (r, rs')) (h' : rs'.slot? k' = some r') :
    rs.slot? k' = some r' ∨ (k' = k ∧ r'.index = rs.all.size ∧ rs'.all.size = rs.all.size + 1) := by
  unfold slot at h
  split at h
  · simp at h
  · split at h
    · simp only [Except.ok.injEq, Prod.mk.injEq] at h
      rw [← h.2] at h'
      exact Or.inl h'
    · simp only [Except.ok.injEq, Prod.mk.injEq] at h
      rw [← h.2] at h' ⊢
      simp only [slot?, create, List.find?_append, Option.map_eq_some_iff, Option.or_eq_some_iff] at h' ⊢
      obtain ⟨p, hp | ⟨-, hp⟩, hr⟩ := h'
      · exact Or.inl ⟨p, hp, hr⟩
      · right
        simp only [List.find?_cons, List.find?_nil] at hp
        split at hp
        · rename_i hk
          simp only [Option.some.injEq] at hp
          subst hp hr
          exact ⟨(beq_iff_eq.mp hk).symm, rfl, by simp⟩
        · simp at hp

theorem size_le_slot (h : rs.slot k = .ok (r, rs')) : rs.all.size ≤ rs'.all.size := by
  unfold slot at h
  split at h
  · simp at h
  · split at h <;> simp only [Except.ok.injEq, Prod.mk.injEq] at h <;> rewrite [← h.2]
    · exact Nat.le_refl _
    · simp [create]

/-- Every slot that the method declares has a register once it is asked for. -/
theorem exists_slot (h : k < rs.maxLocals) : ∃ p, rs.slot k = .ok p := by
  unfold slot
  rw [if_neg (Nat.not_le.mpr h)]
  split
  · exact ⟨_, rfl⟩
  · exact ⟨_, rfl⟩

/-- The number of local slots is the method's. -/
theorem maxLocals_slot (h : rs.slot k = .ok (r, rs')) : rs'.maxLocals = rs.maxLocals := by
  unfold slot at h
  split at h
  · simp at h
  · split at h <;> simp only [Except.ok.injEq, Prod.mk.injEq] at h <;> rw [← h.2]
    simp [create]

@[simp] theorem maxLocals_fresh : rs.fresh.2.maxLocals = rs.maxLocals := rfl
@[simp] theorem slot?_fresh : rs.fresh.2.slot? k = rs.slot? k := rfl
@[simp] theorem fresh_index : rs.fresh.1.index = rs.all.size := rfl
@[simp] theorem size_fresh : rs.fresh.2.all.size = rs.all.size + 1 := by simp [fresh, create]

end Registers
end ThreeAddress
