import ThreeAddress.Proofs.Lowering.Shuffles
import ThreeAddress.Proofs.Lowering.Visits

/-!
# Visits of any operation

`Visit` is what a visit of an instruction of any kind did to the stack, told by a later state. `lowerOperation_spec` is the specification
of lowering one operation: it makes changes, it leaves operands that exist on the stack, and what it did can be told ever after.
-/

namespace ThreeAddress

open State

/-- What a visit of an instruction did to the stack. -/
inductive Visit (m : Method) (shares : Bool) (i : Nat) (before after : Stack) (s : State) : Operation → Prop where
  | plain {op : Operation} {xs : List OperandId} {rest : Stack} {e : Effect OperandId} (plain : op.isPlain)
      (performed : Performed shares i op before after xs rest e s) : Visit m shares i before after s op
  | shuffle {how : Shuffle} {count : Count} (words : shuffleWords how count before = some after) :
      Visit m shares i before after s (.shuffle how count)
  | line {number : Nat} (same : after = before) : Visit m shares i before after s (.line number)
  /-- The label of no handler, or of one with an entry of its own. -/
  | label {l : Label} (quiet : l ∈ m.handlerLabels → (s.handlerEntry? i).isSome) (same : after = before) :
      Visit m shares i before after s (.label l)
  /-- The label of a handler that binds the exception. -/
  | caught {l : Label} {o : OperandId} (handler : l ∈ m.handlerLabels) (entry : s.handlerEntry? i = none)
      (out : (s.frame i).out = some o) (pushed : after = .operand o :: before) : Visit m shares i before after s (.label l)

variable {m : Method} {shares : Bool} {s s' : State} {i : Nat} {op : Operation} {before after : Stack} {u : PUnit}

/-- What a visit did can be told ever after. -/
theorem Visit.mono (h : Visit m shares i before after s op) (he : s.Extends s') (hc : s.Coherent m) (hc' : s'.Coherent m)
    (hk : s.StackKnown after) : Visit m shares i before after s' op := by
  cases h with
  | plain plain performed => exact .plain plain (performed.mono he hc hc' hk)
  | shuffle words => exact .shuffle words
  | line same => exact .line same
  | label quiet same => exact .label (by rwa [ he.handlerEntry?]) same
  | caught handler entry out pushed => exact .caught handler (by rwa [ he.handlerEntry?]) (he.out i _ out) pushed

/-- What a visit leaves on the stack was there before, or is the result. -/
theorem Visit.mem_after (h : Visit m shares i before after s op) (ho : .operand o ∈ after) :
    .operand o ∈ before ∨ (s.frame i).out = some o := by
  cases h with
  | plain plain performed =>
    have hrest := (Lowering.mem_of_popOperands performed.pop).2
    cases hw : op.pushes with
    | none =>
      rw [(performed.leaves.statement hw).2] at ho
      exact Or.inl (hrest _ ho)
    | some w =>
      obtain ⟨q, hout, hafter⟩ := performed.leaves.result w hw
      rw [hafter, mem_pushOperand] at ho
      rcases ho with rfl | ho
      · exact Or.inr hout
      · exact Or.inl (hrest _ ho)
  | shuffle words => exact Or.inl (mem_of_shuffleWords words ho)
  | line same | label _ same => exact Or.inl (same ▸ ho)
  | caught _ _ out pushed =>
    rw [pushed] at ho
    rcases List.mem_cons.mp ho with heq | ho
    · cases heq
      exact Or.inr out
    · exact Or.inl ho

namespace Lowering

theorem lowerLabel_spec {l : Label} (h : Yields (lowerLabel m i l) s u s') (hc : s.Coherent m)
    (here : m.code[i]? = some (.label l)) (hk : s.StackKnown s.stack) :
    Changes m shares s s' ∧ s'.StackKnown s'.stack ∧ Visit m shares i s.stack s'.stack s' (.label l) := by
  simp only [lowerLabel, yields_ite, yields_pure, yields_bind, yields_get, List.contains_iff_mem] at h
  rcases h with ⟨hh, s, s, ⟨rfl, rfl⟩, h⟩ | ⟨hh, -, rfl⟩
  · rcases h with ⟨hentry, h⟩ | ⟨hentry, h⟩
    · -- The handler has an entry of its own.
      obtain ⟨e, he⟩ := Option.isSome_iff_exists.mp hentry
      rcases h with ⟨hunit, h⟩ | ⟨-, -, rfl⟩
      · obtain ⟨-, rfl⟩ := yields_setUnit.mp h
        exact ⟨.single (.nop he hunit), hk, .label (fun _ => hentry) rfl⟩
      · exact ⟨.refl, hk, .label (fun _ => hentry) rfl⟩
    · have hnone : s.handlerEntry? i = none := by simpa using hentry
      split at h
      · rename_i o hout
        rw [yields_push] at h
        subst h
        refine ⟨.single (.stack _), ?_, .caught hh hnone hout rfl⟩
        intro p hp
        rcases List.mem_cons.mp hp with heq | hp
        · cases heq
          exact (hc.out i o hout).1
        · exact hk p hp
      · rename_i hout
        simp only [yields_bind, yields_freshRegister, yields_newOperand, yields_modifyFrame, yields_setUnit, yields_push] at h
        obtain ⟨r, _, ⟨rfl, rfl⟩, o, _, ⟨rfl, rfl⟩, _, _, rfl, _, t, ⟨hunit, ht⟩, rfl⟩ := h
        have hchange : Change m shares s t := ht ▸ .caught here hh hnone hout hunit
        have he := hchange.extends hc
        have hout' : (t.frame i).out = some s.nextOperand := by
          rw [ht, modifyUnit_frame, frame_modifyFrame_self]
          · rfl
          · rw [withOperand_frames, withRegisters_frames, hc.frames_size]
            exact (List.getElem?_eq_some_iff.mp here).1
        have hstack : t.stack = s.stack := by rw [ht]; rfl
        refine ⟨.tail (.single hchange) (.stack _), ?_, ?_⟩
        · intro p hp
          rw [withStack_stack, hstack] at hp
          rcases List.mem_cons.mp hp with heq | hp
          · cases heq
            exact ((hchange.coherent hc).out i _ hout').1
          · exact he.known (hk p hp)
        · refine .caught hh ?_ hout' (by rw [withStack_stack, hstack]; rfl)
          exact (he.handlerEntry? i).trans hnone
  · exact ⟨.refl, hk, .label (fun hl => absurd hl hh) rfl⟩

/-- What lowering one operation does. Without joins that asks for something: that the operands found by an instruction are those of its
first visit. -/
theorem lowerOperation_spec (h : Yields (lowerOperation m i op) s u s') (hc : s.Coherent m) (here : m.code[i]? = some op)
    (hk : s.StackKnown s.stack)
    (alike : shares = false → s.Exclusive ∧ ∀ xs rest, popOperands op.takes.reverse s.stack = some (xs.reverse, rest) →
      ∀ first, (s.frame i).rows.head? = some first → op.row xs = first) :
    Changes m shares s s' ∧ s'.StackKnown s'.stack ∧ Visit m shares i s.stack s'.stack s' op := by
  by_cases hp : op.isPlain
  · rw [lowerOperation_plain m i hp] at h
    obtain ⟨hch, hks, xs, rest, e, hperf⟩ := lowerPlain_spec h hc here hk alike
    exact ⟨hch, hks, .plain hp hperf⟩
  · cases op with
    | shuffle how count =>
      have hs := lowerShuffle_spec shares h hc hk
      exact ⟨hs.changes, hs.stack, .shuffle hs.words⟩
    | line number =>
      obtain ⟨-, rfl⟩ := yields_pure.mp h
      exact ⟨.refl, hk, .line rfl⟩
    | label l => exact lowerLabel_spec h hc here hk
    | unhandled opcode mnemonic => exact absurd h yields_fail
    | _ => exact absurd rfl hp

end Lowering
end ThreeAddress
