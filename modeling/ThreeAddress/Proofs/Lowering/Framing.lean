import ThreeAddress.Proofs.Lowering.Plain
import ThreeAddress.Proofs.Lowering.Steps

/-!
# What steps leave alone

`Relates R x` says that every success of the step `x` leaves a state that is in the relation `R` to the one before it. Lowering is built from
a few updates of the state, so that a relation which overlooks these, all but a change of the stack, holds across every step that neither
pushes nor pops.
-/

namespace ThreeAddress

open State

namespace Lowering

variable {α β : Type} {i j : Nat} {o : OperandId} {r : RegisterId}

/-- Every success of a step leaves a state that is related to the one before it. -/
def Relates (R : State → State → Prop) (x : LowerM α) : Prop :=
  ∀ s a s', Yields x s a s' → R s s'

/-- A relation that no update tells apart, unless it is one of the stack or of what an instruction other than `i` remembers. -/
structure Overlooks (i : Nat) (R : State → State → Prop) : Prop where
  refl : ∀ s, R s s
  trans : ∀ {s t u}, R s t → R t u → R s u
  withRegisters : ∀ s rs, R s (s.withRegisters rs)
  withOperand : ∀ s p, R s (s.withOperand p)
  bindTo : ∀ s o r, R s (s.bindTo o r)
  modifyUnit : ∀ s j f, R s (s.modifyUnit j f)
  modifyFrame : ∀ s f, R s (s.modifyFrame i f)

/-! ## Building steps -/

theorem relates_fail {R : State → State → Prop} (f : Fault) : Relates R (fail f : LowerM α) :=
  fun _ _ _ h => absurd h yields_fail

theorem relates_ite {R : State → State → Prop} {p : Prop} [Decidable p] {x y : LowerM α} (hx : Relates R x) (hy : Relates R y) :
    Relates R (if p then x else y) := by
  split
  · exact hx
  · exact hy

namespace Overlooks

variable {R : State → State → Prop} (hR : Overlooks i R)

include hR

theorem pure (a : α) : Relates R (Pure.pure a) := by
  intro s b s' h
  rw [(yields_pure.mp h).2]
  exact hR.refl s

theorem get : Relates R (MonadState.get : LowerM State) := by
  intro s a s' h
  rw [(yields_get.mp h).2]
  exact hR.refl s

theorem bind {x : LowerM α} {f : α → LowerM β} (hx : Relates R x) (hf : ∀ a, Relates R (f a)) : Relates R (x >>= f) := by
  intro s b s' h
  obtain ⟨a, t, ha, hb⟩ := yields_bind.mp h
  exact hR.trans (hx s a t ha) (hf a t b s' hb)

theorem get_bind {f : State → LowerM β} (hf : ∀ s, Relates R (f s)) : Relates R (MonadState.get >>= f) :=
  hR.bind hR.get hf

theorem mapM {f : α → LowerM β} (hf : ∀ a, Relates R (f a)) (as : List α) : Relates R (as.mapM f) := by
  induction as with
  | nil => exact hR.pure []
  | cons a as ih =>
    rw [List.mapM_cons]
    exact hR.bind (hf a) fun _ => hR.bind ih fun _ => hR.pure _

theorem forM {f : α → LowerM PUnit} (hf : ∀ a, Relates R (f a)) (as : List α) : Relates R (as.forM f) := by
  induction as with
  | nil => exact hR.pure PUnit.unit
  | cons a as ih => exact hR.bind (hf a) fun _ => ih

/-! ## Registers and statements -/

theorem freshRegister : Relates R freshRegister := by
  intro s r s' h
  rw [(yields_freshRegister.mp h).2]
  exact hR.withRegisters s _

theorem slotRegister (k : Nat) : Relates R (slotRegister k) := by
  intro s r s' h
  obtain ⟨rs, -, rfl⟩ := yields_slotRegister.mp h
  exact hR.withRegisters s rs

theorem newOperand (insn : Nat) (v : Rvalue OperandId) (q : Option RegisterId) : Relates R (newOperand insn v q) := by
  intro s o s' h
  rw [(yields_newOperand.mp h).2]
  exact hR.withOperand s _

theorem setRegister : Relates R (setRegister o r) := by
  intro s u s' h
  rw [yields_setRegister.mp h]
  exact hR.bindTo s o r

theorem setUnit (j : Nat) (d : Draft) : Relates R (setUnit j d) := by
  intro s u s' h
  rw [(yields_setUnit.mp h).2]
  exact hR.modifyUnit s j _

theorem appendUnit (j : Nat) (d : Draft) : Relates R (appendUnit j d) := by
  intro s u s' h
  rw [yields_appendUnit.mp h]
  exact hR.modifyUnit s j _

/-- The instruction itself may remember something else. -/
theorem modifyFrame_self (f : Frame → Frame) : Relates R (Lowering.modifyFrame i f) := by
  intro s u s' h
  rw [yields_modifyFrame.mp h]
  exact hR.modifyFrame s f

theorem bind_register : Relates R (Lowering.bind o r) :=
  hR.bind hR.setRegister fun _ => hR.get_bind fun _ => hR.setUnit _ _

theorem spill : Relates R (spill o) :=
  hR.bind hR.freshRegister fun _ => hR.bind_register

theorem settle (d : Demand) : Relates R (settle d o) :=
  hR.get_bind fun _ => relates_ite hR.spill (hR.pure _)

theorem freeze (atRisk : State → OperandId → Bool) : Relates R (freeze atRisk o) :=
  hR.get_bind fun _ => relates_ite hR.spill (hR.pure _)

theorem freezeAll : Relates R freezeAll :=
  hR.get_bind fun _ => hR.forM (fun _ => hR.freeze _) _

theorem freezeReadersOf : Relates R (freezeReadersOf r) :=
  hR.get_bind fun _ => hR.forM (fun _ => hR.freeze _) _

/-! ## Joins, results and statements -/

theorem rebind : Relates R (rebind o r) := by
  refine hR.get_bind fun s => ?_
  split
  · exact hR.bind_register
  · exact relates_ite (relates_ite hR.setRegister (relates_fail _)) (hR.pure _)

theorem bringInto : Relates R (bringInto o r) := by
  refine hR.get_bind fun s => ?_
  dsimp only
  split
  · exact hR.bind_register
  · exact relates_ite (hR.appendUnit _ _) (hR.pure _)

theorem joinAt (column : List OperandId) (shared : Option RegisterId) : Relates R (joinAt column shared o) := by
  cases shared with
  | some q => exact hR.bind hR.bringInto fun _ => hR.pure _
  | none =>
    refine hR.bind (hR.get_bind fun s => ?_) fun _ => hR.bind (hR.forM (fun _ => hR.rebind) _) fun _ => hR.pure _
    split
    · exact hR.pure _
    · exact hR.freshRegister

theorem joinInputs (row : List OperandId) : Relates R (joinInputs i row) := by
  refine relates_ite (hR.pure _) (hR.get_bind fun s => relates_ite ?_ ?_)
  · exact hR.bind (hR.mapM (fun _ => hR.joinAt _ _) _) fun _ => hR.modifyFrame_self _
  · exact hR.bind (relates_fail _) fun _ => hR.bind (hR.mapM (fun _ => hR.joinAt _ _) _) fun _ => hR.modifyFrame_self _

theorem produce (row : List OperandId) (v : Rvalue OperandId) : Relates R (produce i row v) := by
  refine hR.get_bind fun s => ?_
  split
  · exact hR.bind (hR.joinInputs row) fun _ => hR.pure _
  · exact hR.bind (hR.newOperand _ _ _) fun _ => hR.bind (hR.modifyFrame_self _) fun _ => hR.bind (hR.modifyFrame_self _) fun _ => hR.pure _

theorem emit (row : List OperandId) (d : Draft) : Relates R (emit i row d) :=
  hR.get_bind fun _ => relates_ite (hR.bind (hR.modifyFrame_self _) fun _ => hR.setUnit _ _) (hR.joinInputs row)

end Overlooks
end Lowering
end ThreeAddress
