import ThreeAddress.Proofs.Lowering.Steps

/-!
# Settled statements

A finished statement has registers and constants in the places of its operands. `Settled` says that every operand which a statement demands
in this way stands for a register or a constant, and every change keeps it so.
-/

namespace ThreeAddress

namespace State

variable {m : Method} {shares : Bool} {s s' : State} {o : OperandId}

/-- Every operand that a statement demands stands for a register or a constant. -/
def Settled (s : State) : Prop :=
  ∀ i, ∀ d ∈ s.unit i, ∀ o ∈ d.demanded, s.Known o ∧ (s.content o).isImmediate

/-- Statements that were settled are settled in a later state; new ones must be settled there. -/
theorem Settled.extends (h : s.Settled) (he : s.Extends s')
    (new : ∀ i, ∀ d ∈ s'.unit i, d ∈ s.unit i ∨ ∀ o ∈ d.demanded, s'.Known o ∧ (s'.content o).isImmediate) : s'.Settled := by
  intro i d hd o ho
  rcases new i d hd with hold | hnew
  · obtain ⟨hk, hi⟩ := h i d hold o ho
    exact ⟨he.known hk, he.isImmediate hk hi⟩
  · exact hnew o ho

/-- The statements after the unit of one instruction was changed are those from before and those that were put there. -/
theorem mem_unit_modifyUnit {i j : Nat} {f : List Draft → List Draft} {d : Draft} (h : d ∈ (s.modifyUnit i f).unit j) :
    d ∈ s.unit j ∨ d ∈ f (s.unit i) := by
  rcases unit_modifyUnit_or s i f j with hu | ⟨-, hu⟩ <;> rw [hu] at h
  · exact Or.inl h
  · exact Or.inr h

theorem Change.settled (h : Change m shares s s') (hc : s.Coherent m) (hs : s.Settled) : s'.Settled := by
  have he := h.extends hc
  refine hs.extends he fun j d hd => ?_
  cases h with
  | stack | slot | fresh | rename | record | result => exact Or.inl hd
  | bind =>
    rcases mem_unit_modifyUnit hd with hold | hnew
    · exact Or.inl hold
    · rw [List.mem_singleton.mp hnew]
      exact Or.inr fun o ho => by cases ho
  | @copy o q r share register =>
    rcases mem_unit_modifyUnit hd with hold | hnew
    · exact Or.inl hold
    · rcases List.mem_append.mp hnew with hold | hnew
      · by_cases hj : j = (s.operand o).insn
        · exact Or.inl (hj ▸ hold)
        · exact Or.inl (by rwa [unit_modifyUnit_of_ne hj] at hd)
      · rw [List.mem_singleton.mp hnew]
        exact Or.inr fun o ho => by cases ho
  | @statement i op xs e d' here effect pushes draft empty known settled =>
    rcases mem_unit_modifyUnit hd with hold | hnew
    · exact Or.inl hold
    · rw [List.mem_singleton.mp hnew]
      refine Or.inr fun o ho => ?_
      have hk := known o (Operation.mem_of_mem_operands effect (Effect.mem_of_mem_demanded draft ho).1)
      exact ⟨he.known hk, he.isImmediate hk (settled o ho)⟩
  | caught =>
    rcases mem_unit_modifyUnit hd with hold | hnew
    · exact Or.inl hold
    · rw [List.mem_singleton.mp hnew]
      exact Or.inr fun o ho => by cases ho
  | nop =>
    rcases mem_unit_modifyUnit hd with hold | hnew
    · exact Or.inl hold
    · rw [List.mem_singleton.mp hnew]
      exact Or.inr fun o ho => by cases ho

end State

theorem Changes.settled {m : Method} {shares : Bool} {s s' : State} (h : Changes m shares s s') (hc : s.Coherent m) (hs : s.Settled) :
    s'.Settled := by
  induction h with
  | refl => exact hs
  | tail hr hstep ih => exact hstep.settled (Changes.coherent hr hc) ih

end ThreeAddress
