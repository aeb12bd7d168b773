import ThreeAddress.Lowering.Registers

/-!
# The state of lowering

The operand stack is simulated with values in place of words. A value produced by an instruction is an operand; it stays an unevaluated
expression over earlier operands until something requires a register for it. From then on every place where the operand occurs stands
for that register: statements and expressions name operands, and what an operand stands for is looked up when the body is laid out.

Each instruction has a unit, the statements it gives rise to, and a frame, what it remembers from one visit to the next.
-/

namespace ThreeAddress

/-- The number of an operand. An operand's value mentions only operands with smaller numbers. -/
structure OperandId where
  index : Nat
  deriving DecidableEq, Inhabited

/-- One word of the simulated stack. A wide value is its operand above a `wideHalf`, or its operand twice. -/
inductive Word where
  | operand (id : OperandId)
  | wideHalf
  deriving DecidableEq, Inhabited

/-- A simulated stack, its top first. -/
abbrev Stack := List Word

/-- A value on the simulated stack. -/
structure Operand where
  /-- The instruction that produced the value; the value is evaluated there if it needs a register. -/
  insn : Nat
  value : Rvalue OperandId
  /-- The register that holds the value. -/
  register : Option RegisterId
  deriving DecidableEq

instance : Inhabited Operand := ⟨⟨0, .immediate default, none⟩⟩

/-- The right side of a comparison: an operand, or the constant that an instruction with one operand implies. -/
inductive Comparand where
  | operand (id : OperandId)
  | constant (value : Constant)
  deriving DecidableEq, Inhabited

/-- A statement whose operands may still move into registers and whose targets are labels. -/
inductive Draft where
  | nop
  /-- Binds the caught exception to the register of the operand. -/
  | caught (operand : OperandId)
  /-- Evaluates the value of the operand into its register. -/
  | define (operand : OperandId)
  /-- Copies an operand into a register: into that of a local slot, or into one that a join shares. -/
  | copy (target : RegisterId) (operand : OperandId)
  | increment (slot : RegisterId) (amount : Int16)
  /-- Writes an operand to a field or an array element. -/
  | write (place : Ref OperandId) (operand : OperandId)
  | invoke (call : Invoke OperandId)
  | branch (way : Comparison) (lhs : OperandId) (rhs : Comparand) (target : Label)
  | goto (target : Label)
  | switch (key : OperandId) (keys : SwitchKeys) (targets : List Label) (default : Label)
  | return (operand : OperandId)
  | returnVoid
  | throw (operand : OperandId)
  | enterMonitor (operand : OperandId)
  | exitMonitor (operand : OperandId)
  deriving DecidableEq

/-- What an instruction remembers from one visit to the next. -/
structure Frame where
  /-- The operand it produced on its first visit; later visits push it again. -/
  out : Option OperandId
  /-- The operands it consumed, one row for each visit. -/
  rows : List (List OperandId)
  /-- The register that all rows share at a position, once rows have been joined there. -/
  shared : List (Option RegisterId)
  deriving DecidableEq, Inhabited

/-- An entry of its own for an exception handler whose code normal control flow reaches too. The entry binds the caught exception and
goes on to the shared code, which therefore always finds the value on the stack. -/
structure HandlerEntry where
  /-- The instruction of the handler's label. -/
  insn : Nat
  label : Label
  /-- The caught exception, as the shared code finds it on the stack. -/
  operand : OperandId
  deriving DecidableEq, Inhabited

structure State where
  registers : Registers
  operands : Array Operand
  stack : Stack
  frames : Array Frame
  /-- The statements of each instruction, in order. -/
  units : Array (List Draft)
  handlerEntries : List HandlerEntry
  deriving DecidableEq, Inhabited

/-- A step of lowering: it changes the state or stops with a fault. -/
abbrev LowerM := StateT State (Except Fault)

namespace State

/-- Nothing of the method has been visited. -/
def ofMethod (m : Method) : State :=
  { registers := .ofMethod m
    operands := #[]
    stack := []
    frames := Array.replicate m.code.length default
    units := Array.replicate m.code.length []
    handlerEntries := [] }

/-- The state with another stack. -/
def withStack (s : State) (stack : Stack) : State :=
  { s with stack }

def operand (s : State) (o : OperandId) : Operand :=
  s.operands[o.index]?.getD default

def frame (s : State) (insn : Nat) : Frame :=
  s.frames[insn]?.getD default

def unit (s : State) (insn : Nat) : List Draft :=
  s.units[insn]?.getD []

/-- What an operand stands for: its register, or its value as long as it has none. -/
def content (s : State) (o : OperandId) : Rvalue OperandId :=
  match (s.operand o).register with
  | some r => .register r
  | none => (s.operand o).value

/-- The entry of its own that the handler at an instruction has. -/
def handlerEntry? (s : State) (insn : Nat) : Option HandlerEntry :=
  s.handlerEntries.find? (·.insn == insn)

/-- What an operand stands for mentions the register, directly or inside its operands. -/
def mentions (s : State) (r : RegisterId) (o : OperandId) : Bool :=
  match s.content o with
  | .immediate i => i == .register r
  | v => v.operands.any fun p => if _h : p.index < o.index then s.mentions r p else false
termination_by o.index

/-- Two operands stand for the same value: the same expression over operands that stand for the same values. -/
def equivalent (s : State) (a b : OperandId) : Bool :=
  a == b ||
    ((s.content a).shape == (s.content b).shape &&
      ((s.content a).operands.zip (s.content b).operands).all fun (p, q) =>
        if _h : p.index < a.index then s.equivalent p q else false)
termination_by a.index

/-- Two words stand for the same. -/
def equivalentWords (s : State) : Word → Word → Bool
  | .wideHalf, .wideHalf => true
  | .operand a, .operand b => s.equivalent a b
  | _, _ => false

/-- Two stacks of one depth stand for the same values. -/
def equivalentStacks (s : State) (a b : Stack) : Bool :=
  a.length == b.length && (a.zip b).all fun (v, w) => s.equivalentWords v w

end State

namespace Lowering

/-- Stops with a fault. -/
def fail {α : Type} (f : Fault) : LowerM α :=
  throw f

/-- A new operand produced by an instruction. -/
def newOperand (insn : Nat) (value : Rvalue OperandId) (register : Option RegisterId) : LowerM OperandId :=
  modifyGet fun s => (⟨s.operands.size⟩, { s with operands := s.operands.push ⟨insn, value, register⟩ })

/-- A new register that belongs to no slot. -/
def freshRegister : LowerM RegisterId :=
  modifyGet fun s =>
    let (r, registers) := s.registers.fresh
    (r, { s with registers })

/-- The register of a local slot. -/
def slotRegister (index : Nat) : LowerM RegisterId := do
  let s ← get
  match s.registers.slot index with
  | .error f => fail f
  | .ok (r, registers) =>
    set { s with registers }
    return r

/-- From now on the operand stands for the register. -/
def setRegister (o : OperandId) (r : RegisterId) : LowerM Unit :=
  modify fun s => { s with operands := s.operands.modify o.index fun p => { p with register := some r } }

/-- Gives an instruction its first statement. -/
def setUnit (insn : Nat) (d : Draft) : LowerM Unit := do
  if (← get).unit insn = [] then
    modify fun s => { s with units := s.units.modify insn fun _ => [d] }
  else fail (.unitCollision insn)

/-- Adds a statement behind those that an instruction has. -/
def appendUnit (insn : Nat) (d : Draft) : LowerM Unit :=
  modify fun s => { s with units := s.units.modify insn (· ++ [d]) }

/-- Changes what an instruction remembers. -/
def modifyFrame (insn : Nat) (f : Frame → Frame) : LowerM Unit :=
  modify fun s => { s with frames := s.frames.modify insn f }

/-- Puts an operand without a register into one: it is evaluated where it was produced. -/
def bind (o : OperandId) (r : RegisterId) : LowerM Unit := do
  setRegister o r
  setUnit ((← get).operand o).insn (.define o)

/-- Puts an operand without a register into a fresh one. -/
def spill (o : OperandId) : LowerM Unit := do
  bind o (← freshRegister)

end Lowering
end ThreeAddress
