import ThreeAddress.Lowering.HandlerEntries
import ThreeAddress.Lowering.OperandStack
import ThreeAddress.Lowering.Join

/-!
# Lowering with cells

In a state of lowering, statements and expressions name operands, and what an operand stands for is looked up when the body is laid out.
Here the same is done with cells. Wherever an operand is substituted into an expression or a statement, what it stands for at that moment
is written into a new cell, and the operand remembers the cell as one of its uses; when it gets a register, or another one, all its uses
are written again. A register that a statement assigns is in a cell too. In the end nothing is looked up but cells.
-/

namespace ThreeAddress

/-- The number of a cell. -/
structure CellId where
  index : Nat
  deriving DecidableEq, Inhabited

/-- A value on the simulated stack, whose operands are cells. -/
structure CellOperand where
  /-- The instruction that produced the value. -/
  insn : Nat
  value : Rvalue CellId
  /-- The register that holds the value. -/
  register : Option RegisterId
  /-- The cells into which the operand was substituted. -/
  uses : List CellId
  deriving DecidableEq

instance : Inhabited CellOperand := ⟨⟨0, .immediate default, none, []⟩⟩

/-- What an operand stands for: its register, or its value as long as it has none. -/
def CellOperand.content (o : CellOperand) : Rvalue CellId :=
  match o.register with
  | some r => .register r
  | none => o.value

/-- A statement whose operands are cells and whose targets are labels. -/
inductive Pending where
  | nop
  | identity (target : CellId) (value : Ref CellId)
  | assign (lhs rhs : CellId)
  | invoke (call : Invoke CellId)
  | branch (condition : Condition CellId) (target : Label)
  | goto (target : Label)
  | switch (key : CellId) (keys : SwitchKeys) (targets : List Label) (default : Label)
  | return (value : CellId)
  | returnVoid
  | throw (value : CellId)
  | enterMonitor (value : CellId)
  | exitMonitor (value : CellId)
  deriving DecidableEq

/-- What an instruction remembers from one visit to the next. -/
structure CellFrame extends Frame where
  /-- The cells into which the operands of the first visit were substituted, one for each operand of the first row. -/
  uses : List CellId
  deriving DecidableEq, Inhabited

/-- An entry of its own for an exception handler, with the cell of the register to which it binds the exception. -/
structure CellEntry extends HandlerEntry where
  target : CellId
  deriving DecidableEq, Inhabited

structure CellState where
  registers : Registers
  operands : Array CellOperand
  cells : Array (Rvalue CellId)
  stack : Stack
  frames : Array CellFrame
  /-- The statements of each instruction, in order. -/
  units : Array (List Pending)
  handlerEntries : List CellEntry
  deriving DecidableEq, Inhabited

/-- A step of lowering with cells. -/
abbrev CellM := StateT CellState (Except Fault)

namespace CellState

/-- Nothing of the method has been visited. -/
def ofMethod (m : Method) : CellState :=
  { registers := .ofMethod m
    operands := #[]
    cells := #[]
    stack := []
    frames := Array.replicate m.code.length default
    units := Array.replicate m.code.length []
    handlerEntries := [] }

/-- The state with another stack. -/
def withStack (s : CellState) (stack : Stack) : CellState :=
  { s with stack }

def operand (s : CellState) (o : OperandId) : CellOperand :=
  s.operands[o.index]?.getD default

/-- What a cell holds. -/
def cell (s : CellState) (k : CellId) : Rvalue CellId :=
  s.cells[k.index]?.getD (.immediate default)

def frame (s : CellState) (insn : Nat) : CellFrame :=
  s.frames[insn]?.getD default

def unit (s : CellState) (insn : Nat) : List Pending :=
  s.units[insn]?.getD []

/-- What an operand stands for. -/
def content (s : CellState) (o : OperandId) : Rvalue CellId :=
  (s.operand o).content

/-- The entry of its own that the handler at an instruction has. -/
def handlerEntry? (s : CellState) (insn : Nat) : Option CellEntry :=
  s.handlerEntries.find? (·.insn == insn)

/-- The cell of the register that an instruction defines: that of the entry of a handler, or that of its first statement. -/
def definition? (s : CellState) (insn : Nat) : Option CellId :=
  match s.handlerEntry? insn with
  | some e => some e.target
  | none =>
    match (s.unit insn).head? with
    | some (.assign lhs _) => some lhs
    | some (.identity target _) => some target
    | _ => none

/-- What a cell holds mentions the register, directly or inside its operands. -/
def mentionsAt (s : CellState) (r : RegisterId) (k : CellId) : Bool :=
  match s.cell k with
  | .immediate i => i == .register r
  | v => v.operands.any fun p => if _h : p.index < k.index then s.mentionsAt r p else false
termination_by k.index

/-- A value mentions the register, directly or inside its operands. -/
def mentions (s : CellState) (r : RegisterId) : Rvalue CellId → Bool
  | .immediate i => i == .register r
  | v => v.operands.any (s.mentionsAt r)

/-- Two cells hold the same once everything in them is looked up. -/
def alike (s : CellState) (j k : CellId) : Bool :=
  (s.cell j).shape == (s.cell k).shape &&
    ((s.cell j).operands.zip (s.cell k).operands).all fun (p, q) =>
      if _h : p.index < j.index then s.alike p q else false
termination_by j.index

/-- Two operands stand for the same once everything in them is looked up. -/
def equivalent (s : CellState) (a b : OperandId) : Bool :=
  a == b ||
    ((s.content a).shape == (s.content b).shape && ((s.content a).operands.zip (s.content b).operands).all fun (p, q) => s.alike p q)

/-- Two words stand for the same. -/
def equivalentWords (s : CellState) : Word → Word → Bool
  | .wideHalf, .wideHalf => true
  | .operand a, .operand b => s.equivalent a b
  | _, _ => false

/-- Two stacks of one depth stand for the same values. -/
def equivalentStacks (s : CellState) (a b : Stack) : Bool :=
  a.length == b.length && (a.zip b).all fun (v, w) => s.equivalentWords v w

end CellState

namespace Cells

/-- Stops with a fault. -/
def fail {α : Type} (f : Fault) : CellM α :=
  throw f

/-- A new operand produced by an instruction, not substituted anywhere. -/
def newOperand (insn : Nat) (value : Rvalue CellId) (register : Option RegisterId) : CellM OperandId :=
  modifyGet fun s => (⟨s.operands.size⟩, { s with operands := s.operands.push ⟨insn, value, register, []⟩ })

/-- A new cell. -/
def newCell (v : Rvalue CellId) : CellM CellId :=
  modifyGet fun s => (⟨s.cells.size⟩, { s with cells := s.cells.push v })

/-- Writes a cell. -/
def setCell (k : CellId) (v : Rvalue CellId) : CellM Unit :=
  modify fun s => { s with cells := s.cells.setIfInBounds k.index v }

/-- Substitutes an operand: a new cell that holds what it stands for, and that it remembers. -/
def use (o : OperandId) : CellM CellId := do
  let k ← newCell ((← get).content o)
  modify fun s => { s with operands := s.operands.modify o.index fun p => { p with uses := p.uses ++ [k] } }
  return k

/-- Writes what an operand stands for into all its uses. -/
def updateUses (o : OperandId) : CellM Unit := do
  let p := (← get).operand o
  p.uses.forM fun k => setCell k p.content

/-- A new register that belongs to no slot. -/
def freshRegister : CellM RegisterId :=
  modifyGet fun s =>
    let (r, registers) := s.registers.fresh
    (r, { s with registers })

/-- The register of a local slot. -/
def slotRegister (index : Nat) : CellM RegisterId := do
  let s ← get
  match s.registers.slot index with
  | .error f => fail f
  | .ok (r, registers) =>
    set { s with registers }
    return r

/-- From now on the operand stands for the register. -/
def setRegister (o : OperandId) (r : RegisterId) : CellM Unit :=
  modify fun s => { s with operands := s.operands.modify o.index fun p => { p with register := some r } }

/-- Gives an instruction its first statement. -/
def setUnit (insn : Nat) (p : Pending) : CellM Unit := do
  if (← get).unit insn = [] then
    modify fun s => { s with units := s.units.modify insn fun _ => [p] }
  else fail (.unitCollision insn)

/-- Adds a statement behind those that an instruction has. -/
def appendUnit (insn : Nat) (p : Pending) : CellM Unit :=
  modify fun s => { s with units := s.units.modify insn (· ++ [p]) }

/-- Changes what an instruction remembers. -/
def modifyFrame (insn : Nat) (f : CellFrame → CellFrame) : CellM Unit :=
  modify fun s => { s with frames := s.frames.modify insn f }

/-- Puts an operand without a register into one: it is assigned where it was produced, and its uses name the register. -/
def bind (o : OperandId) (r : RegisterId) : CellM Unit := do
  setRegister o r
  let p := (← get).operand o
  let lhs ← newCell (.register r)
  let rhs ← newCell p.value
  setUnit p.insn (.assign lhs rhs)
  updateUses o

/-- Puts an operand without a register into a fresh one. -/
def spill (o : OperandId) : CellM Unit := do
  bind o (← freshRegister)

/-! ## The simulated operand stack -/

def pushWord (w : Word) : CellM Unit :=
  modify fun s => { s with stack := w :: s.stack }

/-- Pushes an operand; if it is wide, above a word for its other half. -/
def push (o : OperandId) (wide : Bool) : CellM Unit := do
  if wide then pushWord .wideHalf
  pushWord (.operand o)

/-- Pushes words, the first one first. -/
def pushWords (ws : List Word) : CellM Unit :=
  ws.forM pushWord

/-- Removes the top word. -/
def popWord (insn : Nat) : CellM Word := do
  match (← get).stack with
  | [] => fail (.stackUnderflow insn)
  | w :: rest =>
    modify fun s => { s with stack := rest }
    return w

/-- The top word. -/
def peekWord (insn : Nat) : CellM Word := do
  match (← get).stack with
  | [] => fail (.stackUnderflow insn)
  | w :: _ => return w

/-- Removes the top word, which must be an operand. -/
def popNarrow (insn : Nat) : CellM OperandId := do
  match ← popWord insn with
  | .operand o => return o
  | .wideHalf => fail (.malformedWidePair insn)

/-- Removes an operand and the word of its other half, which is a `wideHalf` or the operand again. -/
def popWide (insn : Nat) : CellM OperandId := do
  let o ← popNarrow insn
  match ← popWord insn with
  | .wideHalf => return o
  | .operand p => if p = o then return o else fail (.malformedWidePair insn)

/-- An unevaluated value meets a demand as it is. -/
def accepts : Demand → Rvalue CellId → Bool
  | .any, _ => true
  | .register, v => v.asRegister?.isSome
  | .immediate, v => v.isImmediate
  | .constant, v => v.isConstant

/-- Puts an operand into a fresh register unless it has one or its value meets the demand. -/
def settle (d : Demand) (o : OperandId) : CellM Unit := do
  let p := (← get).operand o
  if p.register.isNone && !accepts d p.value then spill o

/-- Consumes a value and makes it meet the demand. -/
def take (insn : Nat) (d : Demand) (wide : Bool) : CellM OperandId := do
  let o ← if wide then popWide insn else popNarrow insn
  settle d o
  return o

/-- Evaluates a value into a register if the operand has none and the value is at risk. -/
def freeze (atRisk : CellState → Rvalue CellId → Bool) (o : OperandId) : CellM Unit := do
  let s ← get
  if (s.operand o).register.isNone && atRisk s (s.operand o).value then spill o

/-- Freezes the values on the stack that read a register, before or after that register is written. -/
def freezeReadersOf (r : RegisterId) : CellM Unit := do
  (Lowering.operandsOf (← get).stack).forM (freeze fun s v => s.mentions r v)

/-- Freezes the values on the stack that a call or a write to the heap could change: all but registers and constants. -/
def freezeAll : CellM Unit := do
  (Lowering.operandsOf (← get).stack).forM (freeze fun _ v => !v.isImmediate)

/-! ## Joins -/

/-- Moves an operand into a register: evaluates it there, or writes the register into its definition and its uses. -/
def rebind (o : OperandId) (r : RegisterId) : CellM Unit := do
  let s ← get
  match (s.operand o).register with
  | none => bind o r
  | some q =>
    if q ≠ r then
      match s.definition? (s.operand o).insn with
      | none => fail (.missingDefinition (s.operand o).insn)
      | some k =>
        setCell k (.register r)
        setRegister o r
        updateUses o

/-- Brings an operand into a register that is fixed already: evaluates it there, or copies it where it was produced. -/
def bringInto (o : OperandId) (r : RegisterId) : CellM Unit := do
  let p := (← get).operand o
  match p.register with
  | none => bind o r
  | some q =>
    if q ≠ r then
      let rhs ← use o
      let lhs ← newCell (.register r)
      appendUnit p.insn (.assign lhs rhs)

/-- The register in which the operands of one position can meet: the first that one of them has, or a fresh one. -/
def meetingRegister (column : List OperandId) : CellM RegisterId := do
  let s ← get
  match column.findSome? fun o => (s.operand o).register with
  | some r => return r
  | none => freshRegister

/-- Joins an operand with those that arrived at the same position before, where the cell of the position is given; the register they share
from now on. -/
def joinAt (column : List OperandId) (shared : Option RegisterId) (place : Option CellId) (o : OperandId) : CellM RegisterId := do
  match shared with
  | some r =>
    bringInto o r
    return r
  | none =>
    let r ← meetingRegister (column ++ [o])
    (column ++ [o]).forM (rebind · r)
    match place with
    | some k => setCell k (.register r)
    | none => pure ⟨⟩
    return r

/-- Joins the operands of a later visit of an instruction, position by position, with those of the visits before it. -/
def joinInputs (insn : Nat) (row : List OperandId) : CellM Unit := do
  unless row = [] do
    let f := (← get).frame insn
    unless f.rows.head?.map List.length = some row.length do fail (.inconsistentMerge insn)
    let shared ← row.zipIdx.mapM fun (o, i) => joinAt (Lowering.column f.rows i) (f.shared[i]?.join) f.uses[i]? o
    modifyFrame insn fun f => { f with rows := f.rows ++ [row], shared := shared.map some }

/-- Records the operands of a first visit, and the cells into which they were substituted. -/
def setInputs (insn : Nat) (row : List OperandId) (uses : List CellId) : CellM Unit :=
  modifyFrame insn fun f => { f with rows := [row], shared := row.map fun _ => none, uses }

end Cells
end ThreeAddress
