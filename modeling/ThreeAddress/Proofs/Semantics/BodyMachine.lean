import Mathlib.Logic.Function.Basic
import ThreeAddress.Lowering
import ThreeAddress.Proofs.Semantics.Machine
import ThreeAddress.Proofs.Semantics.Meaning

/-!
# The machine of three-address code

A body as the machine that runs it: a file of registers, a heap, and the position of the next statement. An assignment from a call shows
the call, an assignment to a field or an array element shows the write, and every other assignment to a register shows nothing.
-/

namespace ThreeAddress

variable {V H : Type}

/-- The machine between two statements. -/
structure BodyState (V H : Type) where
  position : Nat
  regs : RegisterId → V
  heap : H

/-- The case of a switch with `count` cases that a number chooses; none if it chooses none. -/
def SwitchKeys.choose (keys : SwitchKeys) (count : Nat) (key : Int32) : Option Nat :=
  match keys with
  | .lookup keys => keys.findIdx? (· == key)
  | .table low high => if low ≤ key ∧ key ≤ high then some ((key.toInt - low.toInt).toNat) |>.filter (· < count) else none

namespace BodyState

variable (M : Meaning V H) (args : Arguments V) (b : Body) (s : BodyState V H)

/-- Goes on with the next statement. -/
def advance : BodyState V H :=
  { s with position := s.position + 1 }

/-- Puts a value into a register and goes on with the next statement. -/
def assign (r : RegisterId) (v : V) : BodyState V H :=
  { s.advance with regs := Function.update s.regs r v }

/-- The value of an operand. -/
def operand (i : Immediate) : V :=
  i.eval M s.regs

/-- Shows an action and goes on elsewhere. -/
def act (a : Action V) (s' : BodyState V H) : Turn (BodyState V H) (Event V RegisterId) :=
  .next (some ⟨a, s.regs⟩) s'

/-- The turn of the machine for a statement. -/
def execute : Stmt → Turn (BodyState V H) (Event V RegisterId)
  | .nop => .next none s.advance
  | .identity r source =>
    match args.value? source with
    | some v => .next none (s.assign r v)
    | none => .stuck
  | .assign (.immediate (.register r)) (.expr (.invoke c)) =>
    let c := c.map (s.operand M)
    let (v, heap) := M.call s.heap c
    s.act (.call c) { s.assign r v with heap }
  | .assign (.immediate (.register r)) v => .next none (s.assign r (v.eval M s.regs s.heap))
  | .assign (.ref _) (.expr (.invoke _)) => .stuck
  | .assign (.ref place) v =>
    let place := place.map (s.operand M)
    let v := v.eval M s.regs s.heap
    s.act (.write place v) { s.advance with heap := M.write s.heap place v }
  | .assign _ _ => .stuck
  | .invoke c =>
    let c := c.map (s.operand M)
    s.act (.call c) { s.advance with heap := (M.call s.heap c).2 }
  | .branch c target =>
    let lhs := s.operand M c.lhs
    let rhs := s.operand M c.rhs
    let taken := M.holds c.op lhs rhs
    s.act (.branch c.op lhs rhs taken) (if taken then { s with position := target } else s.advance)
  | .goto target => .next none { s with position := target }
  | .switch key keys targets default =>
    let key := s.operand M key
    let choice := keys.choose targets.length (M.toInt key)
    s.act (.switch key choice) { s with position := (choice.bind (targets[·]?)).getD default }
  | .return v => .halt ⟨.return (s.operand M v), s.regs⟩
  | .returnVoid => .halt ⟨.returnVoid, s.regs⟩
  | .throw v => .halt ⟨.throw (s.operand M v), s.regs⟩
  | .enterMonitor v => s.act (.enter (s.operand M v)) s.advance
  | .exitMonitor v => s.act (.exit (s.operand M v)) s.advance

/-- The turn of the machine. -/
def step : Turn (BodyState V H) (Event V RegisterId) :=
  match b.stmts[s.position]? with
  | some located => s.execute M args located.stmt
  | none => .stuck

/-- The machine when a method begins. -/
def start (regs : RegisterId → V) (heap : H) : BodyState V H :=
  { position := 0, regs, heap }

end BodyState

/-- The registers of a method once everything is lowered and what it receives is declared. -/
def Method.finalRegisters (m : Method) : Except Fault Registers := do
  let t ← Traversal.complete (S := State) .pendingFirst m
  let (_, registers) ← Layout.declareIncoming t.state.registers (Layout.incoming m)
  return registers

/-- The register of a local slot in the body of a method; none if the body does not use the slot. -/
def Method.slotRegister? (m : Method) (slot : Nat) : Option RegisterId :=
  match m.finalRegisters with
  | .ok registers => registers.slot? slot
  | .error _ => none

end ThreeAddress
