import ThreeAddress.Lowering.Traversal
import ThreeAddress.Proofs.Cells.State

/-!
# Lowering one instruction with cells

Each rule pops the same words as it does without cells. On a first visit it substitutes its operands in an order of its own, and records
them together with the cells in the order in which it popped them or, for calls and dimensions, in that of the source code.
-/

namespace ThreeAddress.Cells

/-- The instruction has neither a result nor a statement yet. -/
def firstVisit (insn : Nat) : CellM Bool := do
  let s ← get
  return (s.frame insn).out.isNone && (s.unit insn).isEmpty

/-- The result of an instruction that consumed a row of operands: on the first visit a new operand, whose value `make` builds together with
the cells of the row; the same operand on later visits. -/
def produce (insn : Nat) (row : List OperandId) (make : CellM (Rvalue CellId × List CellId)) : CellM OperandId := do
  match ((← get).frame insn).out with
  | some o =>
    joinInputs insn row
    return o
  | none =>
    let (value, uses) ← make
    let o ← newOperand insn value none
    setInputs insn row uses
    modifyFrame insn fun f => { f with out := some o }
    return o

/-- The statement of an instruction that consumed a row of operands: on the first visit `make` builds it together with the cells of the row;
later visits are joined. -/
def emit (insn : Nat) (row : List OperandId) (make : CellM (Pending × List CellId)) : CellM Unit := do
  if (← get).unit insn = [] then
    let (p, uses) ← make
    setInputs insn row uses
    setUnit insn p
  else joinInputs insn row

/-- A value without operands. -/
def withoutUses {α : Type} (a : α) : CellM (α × List CellId) :=
  return (a, [])

/-- What is made of one operand. -/
def fromUse {α : Type} (o : OperandId) (make : CellId → α) : CellM (α × List CellId) := do
  let k ← use o
  return (make k, [k])

/-- One operand in, one result out. -/
def lowerUnary (insn : Nat) (wideIn wideOut : Bool) (make : CellId → Expr CellId) : CellM Unit := do
  let v ← take insn (Demand.immediate.onVisit (← firstVisit insn)) wideIn
  push (← produce insn [v] (fromUse v fun k => .expr (make k))) wideOut

/-- Two operands in, one result out. -/
def lowerBinary (insn : Nat) (op : BinaryOp) (wideLhs wideRhs wideOut : Bool) : CellM Unit := do
  let d := Demand.immediate.onVisit (← firstVisit insn)
  let b ← take insn d wideRhs
  let a ← take insn d wideLhs
  let value : CellM (Rvalue CellId × List CellId) := do
    let lhs ← use a
    let rhs ← use b
    return (.expr (.binary op lhs rhs), [rhs, lhs])
  push (← produce insn [b, a] value) wideOut

def lowerArithmetic (insn : Nat) (kind : Kind) (op : Arithmetic) : CellM Unit :=
  match BinaryOp.ofArithmetic? op with
  | some b => lowerBinary insn b kind.isWide (kind.isWide && !op.isShift) kind.isWide
  | none => lowerUnary insn kind.isWide kind.isWide .negate

def lowerStore (insn : Nat) (kind : Kind) (index : Nat) : CellM Unit := do
  let o ← take insn .any kind.isWide
  let r ← slotRegister index
  let statement : CellM (Pending × List CellId) := do
    let rhs ← use o
    let lhs ← newCell (.register r)
    return (.assign lhs rhs, [rhs])
  emit insn [o] statement
  freezeReadersOf r

def lowerIncrement (insn index : Nat) (amount : Int16) : CellM Unit := do
  let r ← slotRegister index
  freezeReadersOf r
  let statement : CellM (Pending × List CellId) := do
    let lhs ← newCell (.register r)
    let a ← newCell (.register r)
    let b ← newCell (.immediate (.constant (.int amount.toInt32)))
    let rhs ← newCell (.expr (.binary .add a b))
    return (.assign lhs rhs, [])
  emit insn [] statement

def lowerArrayLoad (insn : Nat) (kind : Kind) : CellM Unit := do
  let d := Demand.immediate.onVisit (← firstVisit insn)
  let index ← take insn d false
  let base ← take insn d false
  let value : CellM (Rvalue CellId × List CellId) := do
    let baseCell ← use base
    let indexCell ← use index
    return (.ref (.array baseCell indexCell), [indexCell, baseCell])
  push (← produce insn [index, base] value) kind.isWide

def lowerArrayStore (insn : Nat) (kind : Kind) : CellM Unit := do
  let first ← firstVisit insn
  let value ← take insn (Demand.immediate.onVisit first) kind.isWide
  let index ← take insn (Demand.immediate.onVisit first) false
  let base ← take insn (Demand.register.onVisit first) false
  let statement : CellM (Pending × List CellId) := do
    let baseCell ← use base
    let indexCell ← use index
    let rhs ← use value
    let lhs ← newCell (.ref (.array baseCell indexCell))
    return (.assign lhs rhs, [rhs, indexCell, baseCell])
  emit insn [value, index, base] statement
  freezeAll

def lowerNewMultiArray (insn : Nat) (type : ValueType) (dims : Nat) : CellM Unit := do
  let d := Demand.immediate.onVisit (← firstVisit insn)
  let popped ← (List.replicate dims ()).mapM fun _ => take insn d false
  let sizes := popped.reverse
  let value : CellM (Rvalue CellId × List CellId) := do
    let cells ← sizes.mapM use
    return (.expr (.newMultiArray type cells), cells)
  push (← produce insn sizes value) false

def lowerGetField (insn : Nat) (field : FieldRef) : CellM Unit := do
  let base ← take insn (Demand.register.onVisit (← firstVisit insn)) false
  push (← produce insn [base] (fromUse base fun k => .ref (.instanceField k field))) field.type.isWide

def lowerPutStatic (insn : Nat) (field : FieldRef) : CellM Unit := do
  let value ← take insn (Demand.immediate.onVisit (← firstVisit insn)) field.type.isWide
  let statement : CellM (Pending × List CellId) := do
    let rhs ← use value
    let lhs ← newCell (.ref (.staticField field))
    return (.assign lhs rhs, [rhs])
  emit insn [value] statement
  freezeAll

def lowerPutField (insn : Nat) (field : FieldRef) : CellM Unit := do
  let first ← firstVisit insn
  let value ← take insn (Demand.immediate.onVisit first) field.type.isWide
  let base ← take insn (Demand.register.onVisit first) false
  let statement : CellM (Pending × List CellId) := do
    let baseCell ← use base
    let rhs ← use value
    let lhs ← newCell (.ref (.instanceField baseCell field))
    return (.assign lhs rhs, [rhs, baseCell])
  emit insn [value, base] statement
  freezeAll

/-- Takes the arguments of a call, the last one first; in the order of the parameters. -/
def takeArgs (insn : Nat) (d : Demand) (params : List ValueType) : CellM (List OperandId) := do
  let popped ← params.reverse.mapM fun p => take insn d p.isWide
  return popped.reverse

/-- A call of the operands of a row, in the order of the row. -/
def callOf (row : List OperandId) (make : List CellId → Invoke CellId) : CellM (Invoke CellId × List CellId) := do
  let cells ← row.mapM use
  return (make cells, cells)

/-- A call without a result is a statement; any other call is a value, which the freezing that follows evaluates at once. -/
def finishCall (insn : Nat) (row : List OperandId) (make : List CellId → Invoke CellId) (ret : ValueType) : CellM Unit := do
  if ret = .void then
    let statement : CellM (Pending × List CellId) := do
      let (call, uses) ← callOf row make
      return (.invoke call, uses)
    emit insn row statement
  else
    let value : CellM (Rvalue CellId × List CellId) := do
      let (call, uses) ← callOf row make
      return (.expr (.invoke call), uses)
    push (← produce insn row value) ret.isWide
  freezeAll

/-- A call with a receiver in the last cell, or without one. -/
def invocation (kind : Option InstanceKind) (method : MethodRef) (cells : List CellId) : Invoke CellId :=
  match kind, cells.getLast? with
  | some k, some base => .instance k base method cells.dropLast
  | _, _ => .static method cells

def lowerInvoke (insn : Nat) (kind : InvokeKind) (method : MethodRef) : CellM Unit := do
  let first ← firstVisit insn
  let args ← takeArgs insn (Demand.immediate.onVisit first) method.signature.params
  match Lowering.instanceKind? kind with
  | none => finishCall insn args (invocation none method) method.signature.ret
  | some k =>
    let base ← take insn (Demand.register.onVisit first) false
    finishCall insn (args ++ [base]) (invocation (some k) method) method.signature.ret

def lowerInvokeDynamic (insn : Nat) (site : CallSite) : CellM Unit := do
  let args ← takeArgs insn (Demand.immediate.onVisit (← firstVisit insn)) site.signature.params
  finishCall insn args (.dynamic site) site.signature.ret

def lowerBranch (insn : Nat) (kind : Kind) (operands : Count) (way : Comparison) (target : Label) : CellM Unit := do
  let d := Demand.immediate.onVisit (← firstVisit insn)
  let v ← take insn d false
  match operands with
  | .one =>
    let statement : CellM (Pending × List CellId) := do
      let lhs ← use v
      let rhs ← newCell (.immediate (.constant (Lowering.impliedComparand kind)))
      return (.branch { op := way, lhs, rhs } target, [lhs])
    emit insn [v] statement
  | .two =>
    let w ← take insn d false
    let statement : CellM (Pending × List CellId) := do
      let lhs ← use w
      let rhs ← use v
      return (.branch { op := way, lhs, rhs } target, [rhs, lhs])
    emit insn [v, w] statement

def lowerSwitch (insn : Nat) (default : Label) (cases : Cases) : CellM Unit := do
  let key ← take insn (Demand.immediate.onVisit (← firstVisit insn)) false
  emit insn [key] (fromUse key fun k => .switch k (Lowering.keysOf cases) cases.targets default)

def lowerReturn (insn : Nat) (kind : Kind) : CellM Unit := do
  if kind = .void then emit insn [] (withoutUses .returnVoid)
  else
    let v ← take insn (Demand.immediate.onVisit (← firstVisit insn)) kind.isWide
    emit insn [v] (fromUse v .return)

/-- A statement on one operand that is a constant or a register of its own. -/
def lowerConsumer (insn : Nat) (make : CellId → Pending) : CellM Unit := do
  let v ← take insn (Demand.constant.onVisit (← firstVisit insn)) false
  emit insn [v] (fromUse v make)

/-- The word below an operand that was just popped and may be wide. The half of a wide value becomes the operand itself. -/
def secondWord (insn : Nat) (o : OperandId) : CellM Word := do
  match ← peekWord insn with
  | .wideHalf =>
    let _ ← popWord insn
    return .operand o
  | .operand _ => return .operand (← take insn .immediate false)

/-- A word as it stands, the half of a wide value included. -/
def anyWord (insn : Nat) : CellM Word := do
  match ← peekWord insn with
  | .wideHalf => popWord insn
  | .operand _ => return .operand (← take insn .immediate false)

def lowerShuffle (insn : Nat) : Shuffle → Count → CellM Unit
  | .pop, .one => do
    let _ ← take insn .immediate false
  | .pop, .two => do
    let _ ← take insn .immediate false
    let _ ← anyWord insn
  | .dup, .one => do
    let d ← take insn .immediate false
    pushWords [.operand d, .operand d]
  | .dupX1, .one => do
    let d ← take insn .immediate false
    let o ← take insn .immediate false
    pushWords [.operand d, .operand o, .operand d]
  | .dupX2, .one => do
    let d ← take insn .immediate false
    let o ← take insn .immediate false
    let w ← anyWord insn
    pushWords [.operand d, w, .operand o, .operand d]
  | .dup, .two => do
    let d ← take insn .immediate false
    let e ← secondWord insn d
    pushWords [e, .operand d, e, .operand d]
  | .dupX1, .two => do
    let d ← take insn .immediate false
    let e ← secondWord insn d
    let o ← take insn .immediate false
    pushWords [e, .operand d, .operand o, e, .operand d]
  | .dupX2, .two => do
    let d ← take insn .immediate false
    let e ← secondWord insn d
    let o ← take insn .immediate false
    let w ← anyWord insn
    pushWords [e, .operand d, w, .operand o, e, .operand d]
  | .swap, _ => do
    let a ← take insn .immediate false
    let b ← take insn .immediate false
    pushWords [.operand a, .operand b]

/-- Only the label of a handler does anything. If the handler has an entry of its own, the exception is on the stack already; otherwise
the label binds and pushes it. -/
def lowerLabel (m : Method) (insn : Nat) (label : Label) : CellM Unit := do
  if m.handlerLabels.contains label then
    let s ← get
    if (s.handlerEntry? insn).isSome then
      if s.unit insn = [] then setUnit insn .nop
    else
      match (s.frame insn).out with
      | some o => push o false
      | none =>
        let r ← freshRegister
        let o ← newOperand insn (.ref .caughtException) (some r)
        modifyFrame insn fun f => { f with out := some o }
        let k ← newCell (.register r)
        setUnit insn (.identity k .caughtException)
        push o false

/-- Lowers one operation of a method each time control reaches it. -/
def lowerOperation (m : Method) (insn : Nat) : Operation → CellM Unit
  | .const c => do push (← produce insn [] (withoutUses (.immediate (.constant c)))) c.isWide
  | .load kind index => do
    let r ← slotRegister index
    push (← produce insn [] (withoutUses (.register r))) kind.isWide
  | .store kind index => lowerStore insn kind index
  | .increment index amount => lowerIncrement insn index amount
  | .arrayLoad kind => lowerArrayLoad insn kind
  | .arrayStore kind => lowerArrayStore insn kind
  | .shuffle how count => lowerShuffle insn how count
  | .arithmetic kind op => lowerArithmetic insn kind op
  | .compare kind nan => lowerBinary insn (.ofNanOrder nan) kind.isWide kind.isWide false
  | .convert source target => lowerUnary insn source.isWide target.isWide (.cast · target.toType)
  | .arrayLength => lowerUnary insn false false .length
  | .cast type => lowerUnary insn false false (.cast · type)
  | .instanceOf type => lowerUnary insn false false (.instanceOf · type)
  | .new type => do push (← produce insn [] (withoutUses (.expr (.new type)))) false
  | .newArray element => lowerUnary insn false false (.newArray element)
  | .newMultiArray type dims => lowerNewMultiArray insn type dims
  | .getStatic field => do push (← produce insn [] (withoutUses (.ref (.staticField field)))) field.type.isWide
  | .putStatic field => lowerPutStatic insn field
  | .getField field => lowerGetField insn field
  | .putField field => lowerPutField insn field
  | .invoke kind method => lowerInvoke insn kind method
  | .invokeDynamic site => lowerInvokeDynamic insn site
  | .branch kind operands way target => lowerBranch insn kind operands way target
  | .jump target => emit insn [] (withoutUses (.goto target))
  | .switch default cases => lowerSwitch insn default cases
  | .return kind => lowerReturn insn kind
  | .throw => lowerConsumer insn .throw
  | .monitorEnter => lowerConsumer insn .enterMonitor
  | .monitorExit => lowerConsumer insn .exitMonitor
  | .nop => emit insn [] (withoutUses .nop)
  | .line _ => pure ()
  | .label label => lowerLabel m insn label
  | .unhandled opcode mnemonic => fail (.unsupported insn opcode mnemonic)

/-! ## Entries of shared handlers -/

/-- Makes the entry of a handler if it needs one; the number of entries made. -/
def addHandlerEntry (m : Method) (label : Label) : CellM Nat := do
  let insn ← Lowering.labelIndex m label
  if (CellState.handlerEntry? (← get) insn).isNone && m.isJumpTarget label then
    let r ← freshRegister
    let target ← newCell (.register r)
    let operand ← newOperand insn (.ref .caughtException) (some r)
    modify fun s => { s with handlerEntries := s.handlerEntries ++ [⟨⟨insn, label, operand⟩, target⟩] }
    return 1
  else return 0

/-- Makes the entries of all handlers that need one; the number of entries made. -/
def addHandlerEntries (m : Method) : CellM Nat := do
  return (← m.handlerLabels.mapM (addHandlerEntry m)).foldr (· + ·) 0

/-- Code is visited with cells as it is without. -/
instance : LoweringState CellState where
  ofMethod := CellState.ofMethod
  addHandlerEntries := addHandlerEntries
  lowerOperation := lowerOperation
  stack := CellState.stack
  withStack := CellState.withStack
  entryStack s insn := ((s.handlerEntry? insn).map fun e => .operand e.operand).toList
  equivalentStacks := CellState.equivalentStacks

end ThreeAddress.Cells
