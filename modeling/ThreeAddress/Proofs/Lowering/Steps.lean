import ThreeAddress.Lowering.Instruction
import ThreeAddress.Proofs.Lowering.Changes
import ThreeAddress.Proofs.Lowering.Run
import ThreeAddress.Proofs.Lowering.Words

/-!
# What the steps of lowering do

What each single step of lowering does when it succeeds, in terms of the updates of the state. `Quiet` changes leave the stack alone.
-/

namespace ThreeAddress

open State

/-- Any number of changes. -/
abbrev Changes (m : Method) (shares : Bool) : State → State → Prop :=
  Relation.ReflTransGen (Change m shares)

/-- Changes that leave the stack alone. -/
structure Quiet (m : Method) (shares : Bool) (s s' : State) : Prop where
  changes : Changes m shares s s'
  stack : s'.stack = s.stack

variable {m : Method} {shares : Bool} {s s' s'' : State} {i : Nat} {o : OperandId} {r : RegisterId} {u : PUnit}

theorem Changes.coherent (h : Changes m shares s s') (hc : s.Coherent m) : s'.Coherent m := by
  induction h with
  | refl => exact hc
  | tail _ hstep ih => exact hstep.coherent ih

theorem Changes.extends (h : Changes m shares s s') (hc : s.Coherent m) : s.Extends s' := by
  induction h with
  | refl => exact .refl s
  | tail hs hstep ih => exact ih.trans (hstep.extends (Changes.coherent hs hc))

theorem Changes.maxLocals (h : Changes m shares s s') : s'.registers.maxLocals = s.registers.maxLocals := by
  induction h with
  | refl => rfl
  | tail _ hstep ih => rw [hstep.maxLocals, ih]

theorem Quiet.refl (s : State) : Quiet m shares s s :=
  ⟨.refl, rfl⟩

theorem Quiet.trans (h : Quiet m shares s s') (h' : Quiet m shares s' s'') : Quiet m shares s s'' :=
  ⟨h.changes.trans h'.changes, h'.stack.trans h.stack⟩

theorem Quiet.single (h : Change m shares s s') (hs : s'.stack = s.stack) : Quiet m shares s s' :=
  ⟨.single h, hs⟩

/-- Every operand on a stack exists. -/
def State.StackKnown (s : State) (stack : Stack) : Prop :=
  ∀ o, .operand o ∈ stack → s.Known o

theorem State.Extends.stackKnown {stack : Stack} (h : s.Extends s') (hk : s.StackKnown stack) : s'.StackKnown stack :=
  fun o ho => h.known (hk o ho)

/-! ## Single steps -/

namespace Lowering

@[simp] theorem yields_newOperand {insn : Nat} {v : Rvalue OperandId} {q : Option RegisterId} :
    Yields (newOperand insn v q) s o s' ↔ o = s.nextOperand ∧ s' = s.withOperand ⟨insn, v, q⟩ :=
  yields_modifyGet

@[simp] theorem yields_freshRegister :
    Yields freshRegister s r s' ↔ r = s.registers.fresh.1 ∧ s' = s.withRegisters s.registers.fresh.2 :=
  yields_modifyGet

@[simp] theorem yields_slotRegister {k : Nat} :
    Yields (slotRegister k) s r s' ↔ ∃ rs, s.registers.slot k = .ok (r, rs) ∧ s' = s.withRegisters rs := by
  unfold slotRegister
  rw [yields_bind]
  simp only [yields_get]
  constructor
  · rintro ⟨_, _, ⟨rfl, rfl⟩, h⟩
    split at h
    · exact absurd h yields_fail
    · rename_i q rs hs
      simp only [yields_bind, yields_set, yields_pure] at h
      obtain ⟨_, _, rfl, rfl, rfl⟩ := h
      exact ⟨rs, hs, rfl⟩
  · rintro ⟨rs, hs, rfl⟩
    refine ⟨s, s, ⟨rfl, rfl⟩, ?_⟩
    simp only [hs, yields_bind, yields_set, yields_pure]
    exact ⟨⟨⟩, _, rfl, trivial, rfl⟩

@[simp] theorem yields_setRegister : Yields (setRegister o r) s u s' ↔ s' = s.bindTo o r :=
  yields_modify

@[simp] theorem yields_setUnit {d : Draft} :
    Yields (setUnit i d) s u s' ↔ s.unit i = [] ∧ s' = s.modifyUnit i fun _ => [d] := by
  unfold setUnit
  simp only [yields_bind, yields_get, yields_ite, yields_modify, yields_fail, and_false, or_false]
  constructor
  · rintro ⟨_, _, ⟨rfl, rfl⟩, h⟩
    exact h
  · intro h
    exact ⟨s, s, ⟨rfl, rfl⟩, h⟩

@[simp] theorem yields_appendUnit {d : Draft} : Yields (appendUnit i d) s u s' ↔ s' = s.modifyUnit i (· ++ [d]) :=
  yields_modify

@[simp] theorem yields_modifyFrame {f : Frame → Frame} : Yields (modifyFrame i f) s u s' ↔ s' = s.modifyFrame i f :=
  yields_modify

theorem yields_bind_register : Yields (bind o r) s u s' ↔
    s.unit (s.operand o).insn = [] ∧ s' = (s.bindTo o r).modifyUnit (s.operand o).insn fun _ => [.define o] := by
  unfold bind
  simp only [yields_bind, yields_setRegister, yields_get, yields_setUnit]
  constructor
  · rintro ⟨_, _, rfl, _, _, ⟨rfl, rfl⟩, h, rfl⟩
    exact ⟨by simpa using h, by simp⟩
  · rintro ⟨h, rfl⟩
    exact ⟨⟨⟩, _, rfl, _, _, ⟨rfl, rfl⟩, by simpa using h, by simp⟩

@[simp] theorem yields_pushWord {w : Word} : Yields (pushWord w) s u s' ↔ s' = s.withStack (w :: s.stack) :=
  yields_modify

theorem yields_push {wide : Bool} : Yields (push o wide) s u s' ↔ s' = s.withStack (pushOperand o wide s.stack) := by
  unfold push
  cases wide
  · simp [pushOperand]
  · simp only [if_true, yields_bind, yields_pushWord, pushOperand]
    constructor
    · rintro ⟨_, _, rfl, rfl⟩
      rfl
    · rintro rfl
      exact ⟨⟨⟩, _, rfl, rfl⟩

theorem yields_pushWords {ws : List Word} : Yields (pushWords ws) s u s' ↔ s' = s.withStack (ws.reverse ++ s.stack) := by
  unfold pushWords
  induction ws generalizing s with
  | nil =>
    rw [yields_forM_nil]
    rfl
  | cons w ws ih =>
    rw [yields_forM_cons]
    simp only [yields_pushWord, exists_eq_left, ih, withStack_stack, List.reverse_cons, List.append_assoc, List.singleton_append]
    rfl

theorem yields_popWord {w : Word} :
    Yields (popWord i) s w s' ↔ ∃ rest, s.stack = w :: rest ∧ s' = s.withStack rest := by
  unfold popWord
  rw [yields_bind]
  simp only [yields_get]
  constructor
  · rintro ⟨_, _, ⟨rfl, rfl⟩, h⟩
    split at h
    · exact absurd h yields_fail
    · rename_i v rest hs
      simp only [yields_bind, yields_modify, yields_pure] at h
      obtain ⟨_, _, rfl, rfl, rfl⟩ := h
      exact ⟨rest, hs, rfl⟩
  · rintro ⟨rest, hs, rfl⟩
    refine ⟨s, s, ⟨rfl, rfl⟩, ?_⟩
    simp only [hs, yields_bind, yields_modify, yields_pure]
    exact ⟨⟨⟩, _, rfl, trivial, rfl⟩

theorem yields_peekWord {w : Word} : Yields (peekWord i) s w s' ↔ (∃ rest, s.stack = w :: rest) ∧ s' = s := by
  unfold peekWord
  rw [yields_bind]
  simp only [yields_get]
  constructor
  · rintro ⟨_, _, ⟨rfl, rfl⟩, h⟩
    split at h
    · exact absurd h yields_fail
    · rename_i v rest hs
      simp only [yields_pure] at h
      obtain ⟨rfl, rfl⟩ := h
      exact ⟨⟨rest, hs⟩, rfl⟩
  · rintro ⟨⟨rest, hs⟩, rfl⟩
    exact ⟨s', s', ⟨rfl, rfl⟩, by simp [hs]⟩

/-- Popping an operand of a width takes its words from the stack. -/
theorem yields_pop {wide : Bool} : Yields (if wide then popWide i else popNarrow i) s o s' ↔
    ∃ rest, popOperand wide s.stack = some (o, rest) ∧ s' = s.withStack rest := by
  have narrow : ∀ {s s' : State} {o : OperandId}, Yields (popNarrow i) s o s' ↔
      ∃ rest, s.stack = .operand o :: rest ∧ s' = s.withStack rest := by
    intro s s' o
    unfold popNarrow
    simp only [yields_bind, yields_popWord]
    constructor
    · rintro ⟨w, _, ⟨rest, hs, rfl⟩, h⟩
      cases w with
      | wideHalf => exact absurd h yields_fail
      | operand p =>
        simp only [yields_pure] at h
        obtain ⟨rfl, rfl⟩ := h
        exact ⟨rest, hs, rfl⟩
    · rintro ⟨rest, hs, rfl⟩
      exact ⟨_, _, ⟨rest, hs, rfl⟩, by simp⟩
  cases wide with
  | false =>
    simp only [Bool.false_eq_true, if_false, narrow]
    constructor
    · rintro ⟨rest, hs, rfl⟩
      exact ⟨rest, by rw [hs]; rfl, rfl⟩
    · rintro ⟨rest, hs, rfl⟩
      unfold popOperand at hs
      split at hs <;> simp_all
  | true =>
    simp only [if_true, popWide, yields_bind, narrow, yields_popWord]
    constructor
    · rintro ⟨p, _, ⟨rest, hs, rfl⟩, w, _, ⟨rest', hs', rfl⟩, h⟩
      simp only [withStack_stack] at hs'
      subst hs'
      cases w with
      | wideHalf =>
        simp only [yields_pure] at h
        obtain ⟨rfl, rfl⟩ := h
        exact ⟨rest', by rw [hs]; rfl, rfl⟩
      | operand q =>
        simp only [yields_ite, yields_pure, yields_fail, and_false, or_false] at h
        obtain ⟨rfl, rfl, rfl⟩ := h
        exact ⟨rest', by rw [hs]; simp [popOperand], rfl⟩
    · rintro ⟨rest, hs, rfl⟩
      unfold popOperand at hs
      split at hs
      · simp_all
      · rename_i p rest' _ hstack
        simp only [Option.some.injEq, Prod.mk.injEq] at hs
        obtain ⟨rfl, rfl⟩ := hs
        exact ⟨p, _, ⟨_, hstack, rfl⟩, .wideHalf, _, ⟨rest', rfl, rfl⟩, by simp [withStack]⟩
      · rename_i p q rest' _ hstack
        split at hs
        · rename_i hqp
          simp only [Option.some.injEq, Prod.mk.injEq] at hs
          obtain ⟨rfl, rfl⟩ := hs
          exact ⟨p, _, ⟨_, hstack, rfl⟩, .operand q, _, ⟨rest', rfl, rfl⟩, by simp [hqp, withStack]⟩
        · cases hs
      · cases hs

end Lowering
end ThreeAddress
