import ThreeAddress.Proofs.Lowering.Steps

/-!
# Registers kept apart

`Exclusive` says that every register belongs to one operand, that no operand is copied, and that all visits of an instruction found the
same operands. Only joins of different operands can break it: every other change keeps it.
-/

namespace ThreeAddress
namespace State

/-- No two operands share a register, no operand is copied, and all visits of an instruction found the same operands. -/
structure Exclusive (s : State) : Prop where
  inj : ∀ o p r, (s.operand o).register = some r → (s.operand p).register = some r → o = p
  uncopied : ∀ i, (s.unit i).length ≤ 1
  alike : ∀ i row first, (s.frame i).rows.head? = some first → row ∈ (s.frame i).rows → row = first
  shared : ∀ (i j : Nat) (r : RegisterId), (s.frame i).shared[j]? = some (some r) →
    ∃ first o, (s.frame i).rows.head? = some first ∧ first[j]? = some o ∧ (s.operand o).register = some r

variable {m : Method} {shares : Bool} {s s' : State} {i : Nat} {o : OperandId} {r : RegisterId}

/-- Without joins an operand keeps its register. -/
theorem Change.keeps_register (h : Change m false s s') (hr : (s.operand o).register = some r) : (s'.operand o).register = some r := by
  cases h with
  | stack | slot | fresh | record | statement | nop => exact hr
  | rename share | copy share => cases share
  | @bind p q known unbound =>
    rw [modifyUnit_operand, operand_bindTo_of_ne, hr]
    rintro rfl
    simp [unbound] at hr
  | result => rwa [modifyFrame_operand, (known_of_register hr).operand_withOperand]
  | caught =>
    rw [modifyUnit_operand, modifyFrame_operand, (known_withRegisters.mpr (known_of_register hr)).operand_withOperand]
    exact hr

/-- A register that belonged to one operand belongs to one operand after another was bound to a free one. -/
theorem Exclusive.bind {p : OperandId} {q : RegisterId} (h : s.Exclusive) (known : s.Known p) (unbound : (s.operand p).register = none)
    (empty : s.unit (s.operand p).insn = []) (free : ∀ o, (s.operand o).register ≠ some q) :
    ((s.bindTo p q).modifyUnit (s.operand p).insn fun _ => [.define p]).Exclusive := by
  have hself : ((s.bindTo p q).operand p).register = some q := by rw [operand_bindTo_self known]
  have hother : ∀ {o}, o ≠ p → (s.bindTo p q).operand o = s.operand o := fun ho => operand_bindTo_of_ne ho
  refine ⟨?_, ?_, h.alike, ?_⟩
  · intro o o' r ho ho'
    rw [modifyUnit_operand] at ho ho'
    by_cases hop : o = p <;> by_cases hop' : o' = p
    · rw [hop, hop']
    · subst hop
      rw [hself, Option.some.injEq] at ho
      rw [hother hop', ← ho] at ho'
      exact absurd ho' (free o')
    · subst hop'
      rw [hself, Option.some.injEq] at ho'
      rw [hother hop, ← ho'] at ho
      exact absurd ho (free o)
    · rw [hother hop] at ho
      rw [hother hop'] at ho'
      exact h.inj o o' r ho ho'
  · intro i
    rcases unit_modifyUnit_or (s.bindTo p q) (s.operand p).insn (fun _ => [.define p]) i with hu | ⟨-, hu⟩ <;> rw [hu]
    · exact h.uncopied i
    · exact Nat.le_refl 1
  · intro i j r hr
    obtain ⟨first, o, hfirst, ho, hreg⟩ := h.shared i j r hr
    refine ⟨first, o, hfirst, ho, ?_⟩
    rw [modifyUnit_operand, hother, hreg]
    rintro rfl
    simp [unbound] at hreg

/-- A register that belonged to one operand belongs to one operand after a new one came that has none, or a fresh one. -/
theorem Exclusive.withOperand {p : Operand} {g : Frame → Frame} {f : List Draft → List Draft} (h : s.Exclusive)
    (register : ∀ r, p.register = some r → ∀ o, (s.operand o).register ≠ some r) (unit : (f (s.unit i)).length ≤ 1)
    (alike : ∀ row first, (g (s.frame i)).rows.head? = some first → row ∈ (g (s.frame i)).rows → row = first)
    (shared : ∀ (j : Nat) (r : RegisterId), (g (s.frame i)).shared[j]? = some (some r) →
      ∃ first o, (g (s.frame i)).rows.head? = some first ∧ first[j]? = some o ∧ (s.operand o).register = some r) :
    (((s.withOperand p).modifyFrame i g).modifyUnit i f).Exclusive := by
  have hself : (s.withOperand p).operand s.nextOperand = p := operand_withOperand_next
  have hother : ∀ {o}, s.Known o → (s.withOperand p).operand o = s.operand o := fun ho => ho.operand_withOperand
  have hold : ∀ {o : OperandId} {r : RegisterId}, (s.operand o).register = some r → ((s.withOperand p).operand o).register = some r :=
    fun hr => by rw [hother (known_of_register hr), hr]
  have hframe := frame_modifyFrame_or (s.withOperand p) i g
  simp only [withOperand_frame] at hframe
  have hreg : ∀ {o : OperandId} {r : RegisterId}, ((s.withOperand p).operand o).register = some r →
      (s.operand o).register = some r ∨ (o = s.nextOperand ∧ p.register = some r) := by
    intro o r ho
    rcases known_withOperand.mp (known_of_register ho : (s.withOperand p).Known o) with hk | rfl
    · exact Or.inl (by rwa [hother hk] at ho)
    · exact Or.inr ⟨rfl, by rwa [hself] at ho⟩
  refine ⟨?_, ?_, ?_, ?_⟩
  · intro o o' r ho ho'
    rcases hreg ho with ho | ⟨rfl, hp⟩ <;> rcases hreg ho' with ho' | ⟨rfl, hp'⟩
    · exact h.inj o o' r ho ho'
    · exact absurd ho (register r hp' o)
    · exact absurd ho' (register r hp o')
    · rfl
  · intro j
    rcases unit_modifyUnit_or ((s.withOperand p).modifyFrame i g) i f j with hu | ⟨-, hu⟩ <;> rw [hu]
    · exact h.uncopied j
    · exact unit
  · intro j row first hfirst hrow
    rw [modifyUnit_frame] at hfirst hrow
    rcases hframe j with hj | ⟨rfl, hj⟩ <;> rw [hj] at hfirst hrow
    · exact h.alike j row first hfirst hrow
    · exact alike row first hfirst hrow
  · intro j k r hr
    rw [modifyUnit_frame] at hr ⊢
    rcases hframe j with hj | ⟨rfl, hj⟩ <;> rw [hj] at hr ⊢
    · obtain ⟨first, o, hfirst, ho, hor⟩ := h.shared j k r hr
      exact ⟨first, o, hfirst, ho, hold hor⟩
    · obtain ⟨first, o, hfirst, ho, hor⟩ := shared k r hr
      exact ⟨first, o, hfirst, ho, hold hor⟩

/-- Frames and units may change as long as no operand is copied and all rows stay alike. -/
theorem Exclusive.modify {g : Frame → Frame} {f : List Draft → List Draft} (h : s.Exclusive) (unit : (f (s.unit i)).length ≤ 1)
    (alike : ∀ row first, (g (s.frame i)).rows.head? = some first → row ∈ (g (s.frame i)).rows → row = first)
    (shared : ∀ (j : Nat) (r : RegisterId), (g (s.frame i)).shared[j]? = some (some r) →
      ∃ first o, (g (s.frame i)).rows.head? = some first ∧ first[j]? = some o ∧ (s.operand o).register = some r) :
    ((s.modifyFrame i g).modifyUnit i f).Exclusive := by
  have hframe := frame_modifyFrame_or s i g
  refine ⟨h.inj, ?_, ?_, ?_⟩
  · intro j
    rcases unit_modifyUnit_or (s.modifyFrame i g) i f j with hu | ⟨-, hu⟩ <;> rw [hu]
    · exact h.uncopied j
    · exact unit
  · intro j row first hfirst hrow
    rw [modifyUnit_frame] at hfirst hrow
    rcases hframe j with hj | ⟨rfl, hj⟩ <;> rw [hj] at hfirst hrow
    · exact h.alike j row first hfirst hrow
    · exact alike row first hfirst hrow
  · intro j k r hr
    rw [modifyUnit_frame] at hr ⊢
    rcases hframe j with hj | ⟨rfl, hj⟩ <;> rw [hj] at hr ⊢
    · exact h.shared j k r hr
    · exact shared k r hr

/-- Changes without joins keep registers apart. -/
theorem Exclusive.change (h : s.Exclusive) (hc : s.Coherent m) (hs : Change m false s s') : s'.Exclusive := by
  have unshared : ∀ {row : List OperandId} {j : Nat} {r : RegisterId}, (row.map fun _ => (none : Option RegisterId))[j]? ≠ some (some r) := by
    intro row j r hr
    rw [List.getElem?_map, Option.map_eq_some_iff] at hr
    obtain ⟨_, -, hr⟩ := hr
    cases hr
  cases hs with
  | stack | slot | fresh => exact ⟨h.inj, h.uncopied, h.alike, h.shared⟩
  | bind known unbound empty _ free => exact h.bind known unbound empty (free rfl)
  | rename share | copy share => cases share
  | @record i row first shared head known synthesized alike =>
    obtain ⟨rfl, hshared⟩ := alike rfl
    have hhead : ((s.frame i).rows ++ [row]).head? = some row := by rw [List.head?_append, head, Option.some_or]
    rw [← modifyUnit_id (s := s.modifyFrame i _) (i := i)]
    refine h.modify (h.uncopied i) ?_ ?_
    · intro row' first hfirst hrow
      rw [hhead, Option.some.injEq] at hfirst
      subst hfirst
      rcases List.mem_append.mp hrow with hrow | hrow
      · exact h.alike i row' row head hrow
      · exact List.mem_singleton.mp hrow
    · intro j r hr
      simp only [List.getElem?_map, Option.map_eq_some_iff, Option.some.injEq] at hr
      obtain ⟨q, hq, rfl⟩ := hr
      obtain ⟨o, ho, hor⟩ := hshared j q hq
      exact ⟨row, o, hhead, ho, hor⟩
  | @result i op xs e v here effect pushes value out empty known immediate =>
    rw [← modifyUnit_id (s := (s.withOperand ⟨i, v, none⟩).modifyFrame i _) (i := i)]
    refine h.withOperand (by simp) (h.uncopied i) ?_ ?_
    · intro row first hfirst hrow
      simp only [List.head?_cons, Option.some.injEq, List.mem_singleton] at hfirst hrow
      rw [hrow, hfirst]
    · intro j r hr
      exact absurd hr unshared
  | statement here effect pushes draft empty known =>
    refine h.modify (Nat.le_refl 1) ?_ ?_
    · intro row first hfirst hrow
      simp only [List.head?_cons, Option.some.injEq, List.mem_singleton] at hfirst hrow
      rw [hrow, hfirst]
    · intro j r hr
      exact absurd hr unshared
  | @caught i l here handler entry out empty =>
    have hfresh : (s.withRegisters s.registers.fresh.2).Exclusive := ⟨h.inj, h.uncopied, h.alike, h.shared⟩
    refine hfresh.withOperand ?_ (Nat.le_refl 1) (h.alike i) (h.shared i)
    intro r hr o ho
    simp only [Option.some.injEq] at hr
    exact hc.fresh_free o (by rw [hr]; exact ho)
  | @nop i e entry empty =>
    refine ⟨h.inj, ?_, h.alike, h.shared⟩
    intro j
    rcases unit_modifyUnit_or s i (fun _ => [.nop]) j with hu | ⟨-, hu⟩ <;> rw [hu]
    · exact h.uncopied j
    · exact Nat.le_refl 1

end State

variable {m : Method} {shares : Bool} {s s' : State} {i : Nat} {o : OperandId} {r : RegisterId} {u : PUnit}

theorem Changes.keeps_register (h : Changes m false s s') (hr : (s.operand o).register = some r) :
    (s'.operand o).register = some r := by
  induction h with
  | refl => exact hr
  | tail _ hstep ih => exact hstep.keeps_register ih

theorem Changes.exclusive (h : Changes m false s s') (hc : s.Coherent m) (he : s.Exclusive) : s'.Exclusive := by
  induction h with
  | refl => exact he
  | tail hs hstep ih => exact ih.change (Changes.coherent hs hc) hstep

end ThreeAddress
