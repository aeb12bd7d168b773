import ThreeAddress.Proofs.Layout.Evaluation
import ThreeAddress.Proofs.Lowering.LocalSlots
import ThreeAddress.Proofs.Semantics.Values
import ThreeAddress.Proofs.Traversal.Between

/-!
# Writes and the stack

Whatever is still on the stack when a write was lowered is safe from it. A value without a register that is left there does not read the
slot that was stored to or incremented, neither directly nor inside its operands, and needs no evaluation after a call or a write to the
heap. A value with a register is safe because no register of an operand is ever that of a local slot, so that no store and no increment
assigns it.
-/

namespace ThreeAddress

open State

/-- The local slot to which an operation writes. -/
def Operation.writtenSlot? : Operation → Option Nat
  | .store _ k | .increment k _ => some k
  | _ => none

/-- The register that a statement assigns. -/
def Draft.assigned? (s : State) : Draft → Option RegisterId
  | .define o | .caught o => (s.operand o).register
  | .copy r _ | .increment r _ => some r
  | _ => none

namespace State

variable {m : Method} {s : State} {o : OperandId} {r : RegisterId}

/-- An operand of a coherent state reads the registers that it is found to mention. -/
theorem Coherent.mentions_of_reads (h : s.Coherent m) (hr : s.Reads r o) (hk : s.Known o) : s.mentions r o = true := by
  induction hr with
  | register content =>
    rw [mentions, content]
    exact beq_self_eq_true _
  | inside operand _ ih =>
    have hlt := h.lt_of_mem_operands hk operand
    exact mentions_of_mem_operands operand hlt (ih (Nat.lt_trans hlt hk))

/-- No register of an operand belongs to a local slot, and what a store or an increment assigns is no register of an operand. -/
structure KeepsSlotsApart (m : Method) (s : State) : Prop where
  register : ∀ o r, (s.operand o).register = some r → ∀ k, s.registers.slot? k ≠ some r
  assigned : ∀ i op k, m.code[i]? = some op → op.writtenSlot? = some k → ∀ d ∈ s.unit i, ∀ r, d.assigned? s = some r →
    ∀ o, (s.operand o).register ≠ some r

/-- The statement of a store or an increment assigns the register of its slot. -/
theorem Coherent.assigned_slot {i k : Nat} {op : Operation} {d : Draft} (h : s.Coherent m) (here : m.code[i]? = some op)
    (writes : op.writtenSlot? = some k) (hd : d ∈ s.unit i) : d.assigned? s = s.registers.slot? k := by
  cases op with
  | store kind k' =>
    cases writes
    obtain ⟨r, v, hr, rfl⟩ := h.usesSlots.store i kind k d here hd
    exact hr.symm
  | increment k' amount =>
    cases writes
    obtain ⟨r, hr, rfl⟩ := h.usesSlots.increment i k amount d here hd
    exact hr.symm
  | _ => cases writes

theorem Coherent.keepsSlotsApart (h : s.Coherent m) : s.KeepsSlotsApart m where
  register o r hr := (h.register o r hr).2
  assigned i op k here writes d hd r hr o ho := by
    rw [h.assigned_slot here writes hd] at hr
    exact (h.register o r ho).2 k hr

end State

/-- The effect of a store or an increment spares what does not mention the register of its slot. -/
theorem Operation.spares_slot {s : State} {k : Nat} {op : Operation} {xs : List OperandId} {e : Effect OperandId}
    (writes : op.writtenSlot? = some k) (effect : op.effect xs = some e) (used : e.SlotUsed s) :
    ∃ r, s.registers.slot? k = some r ∧ ∀ o, e.Spares s o → Lowering.Frozen (fun s o => s.mentions r o) s o := by
  cases op with
  | store kind k' =>
    cases writes
    rcases xs with - | ⟨x, - | ⟨y, xs⟩⟩ <;> cases effect
    obtain ⟨r, hr⟩ := used
    exact ⟨r, hr, fun o spares => spares r hr⟩
  | increment k' amount =>
    cases writes
    rcases xs with - | ⟨x, xs⟩ <;> cases effect
    obtain ⟨r, hr⟩ := used
    exact ⟨r, hr, fun o spares => spares r hr⟩
  | _ => cases writes

/-- What a visit of a store or an increment leaves on the stack without a register does not read the slot. -/
theorem Visit.not_reads {m : Method} {shares : Bool} {s : State} {i k : Nat} {op : Operation} {before after : Stack}
    (h : Visit m shares i before after s op) (hc : s.Coherent m) (hk : s.StackKnown after) (writes : op.writtenSlot? = some k) :
    ∃ r, s.registers.slot? k = some r ∧ ∀ o, .operand o ∈ after → (s.operand o).register = none → ¬ s.Reads r o := by
  cases h with
  | plain plain performed =>
    obtain ⟨r, hr, hfrozen⟩ := Operation.spares_slot writes performed.effect performed.slot
    refine ⟨r, hr, fun o ho hn hreads => ?_⟩
    have hm := (hfrozen o (performed.spares o ho)).resolve_left (by simp [hn])
    simp [hc.mentions_of_reads hreads (hk o ho)] at hm
  | shuffle | line | label | caught => cases writes

namespace Traversal

/-- Nothing left on the stack can be changed by the write just lowered. Wherever a visit comes to, the first time or later, once the next
instruction is lowered: if it stores to a slot or increments it, no operand on the stack without a register reads the register of the slot;
if it calls a method, or writes to a field or an array element, every operand on the stack without a register is a local slot or a constant;
and before as well as after it no register of an operand is that of a slot, so that no store and no increment assigns one. -/
theorem writes_spare_stack {test : EdgeTest} {m : Method} {i : Nat} {s s' : State} {depths : Array (Option Nat)} {op : Operation}
    (h : Before test m i s depths) (here : m.code[i]? = some op) (lowered : (Lowering.lowerOperation m i op).run s = .ok (⟨⟩, s')) :
    (∀ k, op.writtenSlot? = some k → ∃ r, s'.registers.slot? k = some r ∧
        ∀ o, .operand o ∈ s'.stack → (s'.operand o).register = none → ¬ s'.Reads r o) ∧
      (op.changesHeap → ∀ o, .operand o ∈ s'.stack → (s'.operand o).register = none → (s'.operand o).value.isImmediate) ∧
      s.KeepsSlotsApart m ∧ s'.KeepsSlotsApart m := by
  obtain ⟨hch, hk, hvisit⟩ := h.visit here lowered
  have hc' := hch.coherent h.coherent
  refine ⟨fun k writes => hvisit.not_reads hc' hk writes, fun hop o ho hn => ?_, h.coherent.keepsSlotsApart, hc'.keepsSlotsApart⟩
  exact (hvisit.frozen hop ho).resolve_left (by simp [hn])

/-- Adds a local slot to the value that it had before it was incremented. -/
def postIncrement : Method :=
  { className := "Sample", name := "run", signature := { params := [.int], ret := .int }, isStatic := true, maxLocals := 1, maxStack := 2,
    code := [.load .int 0, .const (.int 1), .arithmetic .int .add, .increment 0 1, .load .int 0, .arithmetic .int .add, .return .int]
    exceptions := [], localNames := [] }

/-- The sum that reads the slot is on the stack before the slot is incremented, and what is on the stack afterwards does not read it. -/
theorem writes_spare_stack_postIncrement : ∃ s depths, Before .pendingFirst postIncrement 3 s depths ∧ s.stack = [.operand ⟨2⟩] ∧
    ∃ s', (Lowering.lowerOperation postIncrement 3 (.increment 0 1)).run s = .ok (⟨⟩, s') ∧
      ∃ r, s'.registers.slot? 0 = some r ∧ ∀ o, .operand o ∈ s'.stack → (s'.operand o).register = none → ¬ s'.Reads r o := by
  have begins : Before .pendingFirst postIncrement 0 _ _ := .first rfl rfl nofun
  have loaded : Before .pendingFirst postIncrement 1 _ _ := .straight begins rfl rfl rfl rfl rfl
  have constant : Before .pendingFirst postIncrement 2 _ _ := .straight loaded rfl rfl rfl rfl rfl
  have added : Before .pendingFirst postIncrement 3 _ _ := .straight constant rfl rfl rfl rfl rfl
  have spared : ∀ {s : State} {depths : Array (Option Nat)}, Before .pendingFirst postIncrement 3 s depths →
      ((Lowering.lowerOperation postIncrement 3 (.increment 0 1)).run s).isOk →
      ∃ s', (Lowering.lowerOperation postIncrement 3 (.increment 0 1)).run s = .ok (⟨⟩, s') ∧
        ∃ r, s'.registers.slot? 0 = some r ∧ ∀ o, .operand o ∈ s'.stack → (s'.operand o).register = none → ¬ s'.Reads r o := by
    intro s depths before succeeds
    obtain ⟨⟨⟨⟩, s'⟩, lowered⟩ := exists_ok_of_isOk succeeds
    exact ⟨s', lowered, (writes_spare_stack before rfl lowered).1 0 rfl⟩
  exact ⟨_, _, added, rfl, spared added (by decide +kernel)⟩

end Traversal
end ThreeAddress
