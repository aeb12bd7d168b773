import ThreeAddress.Lowering.State

/-!
# The simulated operand stack

Pushing and popping values, with the register or constant that a consumer demands of them, and freezing: before a write takes effect,
the values on the stack that it could change are evaluated into registers.
-/

namespace ThreeAddress

/-- What an instruction demands of a value that it consumes. A value that does not meet the demand is put into a register. -/
inductive Demand where
  /-- Any value, evaluated or not. -/
  | any
  /-- A register, that of a local slot included. -/
  | register
  /-- A register or a constant. -/
  | immediate
  /-- A constant; a local slot does not do, because its register may change later. -/
  | constant
  deriving DecidableEq, Inhabited

/-- An unevaluated value meets the demand as it is. -/
def Demand.accepts : Demand → Rvalue OperandId → Bool
  | .any, _ => true
  | .register, v => v.asRegister?.isSome
  | .immediate, v => v.isImmediate
  | .constant, v => v.isConstant

/-- The demand of a first visit; later visits take any value and join it with what came before. -/
def Demand.onVisit (d : Demand) (first : Bool) : Demand :=
  if first then d else .any

namespace Lowering

def pushWord (w : Word) : LowerM Unit :=
  modify fun s => { s with stack := w :: s.stack }

/-- Pushes an operand; if it is wide, above a word for its other half. -/
def push (o : OperandId) (wide : Bool) : LowerM Unit := do
  if wide then pushWord .wideHalf
  pushWord (.operand o)

/-- Pushes words, the first one first. -/
def pushWords (ws : List Word) : LowerM Unit :=
  ws.forM pushWord

/-- Removes the top word. -/
def popWord (insn : Nat) : LowerM Word := do
  match (← get).stack with
  | [] => fail (.stackUnderflow insn)
  | w :: rest =>
    modify fun s => { s with stack := rest }
    return w

/-- The top word. -/
def peekWord (insn : Nat) : LowerM Word := do
  match (← get).stack with
  | [] => fail (.stackUnderflow insn)
  | w :: _ => return w

/-- Removes the top word, which must be an operand. -/
def popNarrow (insn : Nat) : LowerM OperandId := do
  match ← popWord insn with
  | .operand o => return o
  | .wideHalf => fail (.malformedWidePair insn)

/-- Removes an operand and the word of its other half, which is a `wideHalf` or the operand again. -/
def popWide (insn : Nat) : LowerM OperandId := do
  let o ← popNarrow insn
  match ← popWord insn with
  | .wideHalf => return o
  | .operand p => if p = o then return o else fail (.malformedWidePair insn)

/-- Puts an operand into a fresh register unless it has one or its value meets the demand. -/
def settle (d : Demand) (o : OperandId) : LowerM Unit := do
  let p := (← get).operand o
  if p.register.isNone && !d.accepts p.value then spill o

/-- Consumes a value and makes it meet the demand. -/
def take (insn : Nat) (d : Demand) (wide : Bool) : LowerM OperandId := do
  let o ← if wide then popWide insn else popNarrow insn
  settle d o
  return o

/-- Evaluates the value of an operand into a register if the operand has none and the value is at risk. -/
def freeze (atRisk : State → OperandId → Bool) (o : OperandId) : LowerM Unit := do
  let s ← get
  if (s.operand o).register.isNone && atRisk s o then spill o

/-- The operands on a stack, from the bottom to the top. -/
def operandsOf (stack : Stack) : List OperandId :=
  stack.reverse.filterMap fun w =>
    match w with
    | .operand o => some o
    | .wideHalf => none

/-- Freezes the values on the stack that read a register, before or after that register is written. -/
def freezeReadersOf (r : RegisterId) : LowerM Unit := do
  (operandsOf (← get).stack).forM (freeze fun s o => s.mentions r o)

/-- Freezes the values on the stack that a call or a write to the heap could change: all but registers and constants. -/
def freezeAll : LowerM Unit := do
  (operandsOf (← get).stack).forM (freeze fun s o => !(s.operand o).value.isImmediate)

end Lowering
end ThreeAddress
