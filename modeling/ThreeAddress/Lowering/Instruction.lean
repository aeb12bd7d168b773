import ThreeAddress.Lowering.Join
import ThreeAddress.Lowering.OperandStack

/-!
# Lowering one instruction

What an instruction does to the simulated stack and to the state each time control reaches it. On the first visit it takes its operands
as its statement or its result demands and builds that; on a later visit it takes as many operands and joins them with those of the
first. Stack instructions keep nothing: they only move words, and evaluate what they move.
-/

namespace ThreeAddress.Lowering

/-- The instruction has neither a result nor a statement yet. -/
def firstVisit (insn : Nat) : LowerM Bool := do
  let s ← get
  return (s.frame insn).out.isNone && (s.unit insn).isEmpty

/-- The result of an instruction that consumed a row of operands: a new operand on the first visit, the same one on later visits. -/
def produce (insn : Nat) (row : List OperandId) (value : Rvalue OperandId) : LowerM OperandId := do
  match ((← get).frame insn).out with
  | some o =>
    joinInputs insn row
    return o
  | none =>
    let o ← newOperand insn value none
    setInputs insn row
    modifyFrame insn fun f => { f with out := some o }
    return o

/-- The statement of an instruction that consumed a row of operands: built on the first visit, joined on later visits. -/
def emit (insn : Nat) (row : List OperandId) (d : Draft) : LowerM Unit := do
  if (← get).unit insn = [] then
    setInputs insn row
    setUnit insn d
  else joinInputs insn row

/-- One operand in, one result out. -/
def lowerUnary (insn : Nat) (wideIn wideOut : Bool) (make : OperandId → Expr OperandId) : LowerM Unit := do
  let v ← take insn (Demand.immediate.onVisit (← firstVisit insn)) wideIn
  push (← produce insn [v] (.expr (make v))) wideOut

/-- Two operands in, one result out. -/
def lowerBinary (insn : Nat) (op : BinaryOp) (wideLhs wideRhs wideOut : Bool) : LowerM Unit := do
  let d := Demand.immediate.onVisit (← firstVisit insn)
  let rhs ← take insn d wideRhs
  let lhs ← take insn d wideLhs
  push (← produce insn [rhs, lhs] (.expr (.binary op lhs rhs))) wideOut

def lowerArithmetic (insn : Nat) (kind : Kind) (op : Arithmetic) : LowerM Unit :=
  match BinaryOp.ofArithmetic? op with
  | some b => lowerBinary insn b kind.isWide (kind.isWide && !op.isShift) kind.isWide
  | none => lowerUnary insn kind.isWide kind.isWide .negate

/-- A store keeps its operand as it is: it is evaluated into the local slot. -/
def lowerStore (insn : Nat) (kind : Kind) (index : Nat) : LowerM Unit := do
  let o ← take insn .any kind.isWide
  let r ← slotRegister index
  emit insn [o] (.copy r o)
  freezeReadersOf r

def lowerIncrement (insn index : Nat) (amount : Int16) : LowerM Unit := do
  let r ← slotRegister index
  freezeReadersOf r
  emit insn [] (.increment r amount)

def lowerArrayLoad (insn : Nat) (kind : Kind) : LowerM Unit := do
  let d := Demand.immediate.onVisit (← firstVisit insn)
  let index ← take insn d false
  let base ← take insn d false
  push (← produce insn [index, base] (.ref (.array base index))) kind.isWide

def lowerArrayStore (insn : Nat) (kind : Kind) : LowerM Unit := do
  let first ← firstVisit insn
  let value ← take insn (Demand.immediate.onVisit first) kind.isWide
  let index ← take insn (Demand.immediate.onVisit first) false
  let base ← take insn (Demand.register.onVisit first) false
  emit insn [value, index, base] (.write (.array base index) value)
  freezeAll

def lowerNewMultiArray (insn : Nat) (type : ValueType) (dims : Nat) : LowerM Unit := do
  let d := Demand.immediate.onVisit (← firstVisit insn)
  let popped ← (List.replicate dims ()).mapM fun _ => take insn d false
  let sizes := popped.reverse
  push (← produce insn sizes (.expr (.newMultiArray type sizes))) false

def lowerGetField (insn : Nat) (field : FieldRef) : LowerM Unit := do
  let base ← take insn (Demand.register.onVisit (← firstVisit insn)) false
  push (← produce insn [base] (.ref (.instanceField base field))) field.type.isWide

def lowerPutStatic (insn : Nat) (field : FieldRef) : LowerM Unit := do
  let value ← take insn (Demand.immediate.onVisit (← firstVisit insn)) field.type.isWide
  emit insn [value] (.write (.staticField field) value)
  freezeAll

def lowerPutField (insn : Nat) (field : FieldRef) : LowerM Unit := do
  let first ← firstVisit insn
  let value ← take insn (Demand.immediate.onVisit first) field.type.isWide
  let base ← take insn (Demand.register.onVisit first) false
  emit insn [value, base] (.write (.instanceField base field) value)
  freezeAll

/-- Takes the arguments of a call, the last one first; in the order of the parameters. -/
def takeArgs (insn : Nat) (d : Demand) (params : List ValueType) : LowerM (List OperandId) := do
  let popped ← params.reverse.mapM fun p => take insn d p.isWide
  return popped.reverse

/-- A call without a result is a statement; any other call is a value, which the freezing that follows evaluates at once. -/
def finishCall (insn : Nat) (row : List OperandId) (call : Invoke OperandId) (ret : ValueType) : LowerM Unit := do
  if ret = .void then emit insn row (.invoke call)
  else push (← produce insn row (.expr (.invoke call))) ret.isWide
  freezeAll

/-- The kind of a call on a receiver. -/
def instanceKind? : InvokeKind → Option InstanceKind
  | .static => none
  | .virtual => some .virtual
  | .special => some .special
  | .interface => some .interface

def lowerInvoke (insn : Nat) (kind : InvokeKind) (method : MethodRef) : LowerM Unit := do
  let first ← firstVisit insn
  let args ← takeArgs insn (Demand.immediate.onVisit first) method.signature.params
  match instanceKind? kind with
  | none => finishCall insn args (.static method args) method.signature.ret
  | some k =>
    let base ← take insn (Demand.register.onVisit first) false
    finishCall insn (args ++ [base]) (.instance k base method args) method.signature.ret

def lowerInvokeDynamic (insn : Nat) (site : CallSite) : LowerM Unit := do
  let args ← takeArgs insn (Demand.immediate.onVisit (← firstVisit insn)) site.signature.params
  finishCall insn args (.dynamic site args) site.signature.ret

/-- The constant with which an instruction of one operand compares it. -/
def impliedComparand (kind : Kind) : Constant :=
  if kind = .object then .null else .int 0

def lowerBranch (insn : Nat) (kind : Kind) (operands : Count) (way : Comparison) (target : Label) : LowerM Unit := do
  let d := Demand.immediate.onVisit (← firstVisit insn)
  let v ← take insn d false
  match operands with
  | .one => emit insn [v] (.branch way v (.constant (impliedComparand kind)) target)
  | .two =>
    let lhs ← take insn d false
    emit insn [v, lhs] (.branch way lhs (.operand v) target)

/-- The keys of the cases of a switch. -/
def keysOf : Cases → SwitchKeys
  | .lookup pairs => .lookup (pairs.map (·.1))
  | .table low high _ => .table low high

def lowerSwitch (insn : Nat) (default : Label) (cases : Cases) : LowerM Unit := do
  let key ← take insn (Demand.immediate.onVisit (← firstVisit insn)) false
  emit insn [key] (.switch key (keysOf cases) cases.targets default)

def lowerReturn (insn : Nat) (kind : Kind) : LowerM Unit := do
  if kind = .void then emit insn [] .returnVoid
  else
    let v ← take insn (Demand.immediate.onVisit (← firstVisit insn)) kind.isWide
    emit insn [v] (.return v)

/-- A statement on one operand that is a constant or a register of its own. -/
def lowerConsumer (insn : Nat) (make : OperandId → Draft) : LowerM Unit := do
  let v ← take insn (Demand.constant.onVisit (← firstVisit insn)) false
  emit insn [v] (make v)

/-- The word below an operand that was just popped and may be wide. The half of a wide value becomes the operand itself. -/
def secondWord (insn : Nat) (o : OperandId) : LowerM Word := do
  match ← peekWord insn with
  | .wideHalf =>
    let _ ← popWord insn
    return .operand o
  | .operand _ => return .operand (← take insn .immediate false)

/-- A word as it stands, the half of a wide value included. -/
def anyWord (insn : Nat) : LowerM Word := do
  match ← peekWord insn with
  | .wideHalf => popWord insn
  | .operand _ => return .operand (← take insn .immediate false)

def lowerShuffle (insn : Nat) : Shuffle → Count → LowerM Unit
  | .pop, .one => do
    let _ ← take insn .immediate false
  | .pop, .two => do
    let _ ← take insn .immediate false
    let _ ← anyWord insn
  | .dup, .one => do
    let d ← take insn .immediate false
    pushWords [.operand d, .operand d]
  | .dupX1, .one => do
    let d ← take insn .immediate false
    let o ← take insn .immediate false
    pushWords [.operand d, .operand o, .operand d]
  | .dupX2, .one => do
    let d ← take insn .immediate false
    let o ← take insn .immediate false
    let w ← anyWord insn
    pushWords [.operand d, w, .operand o, .operand d]
  | .dup, .two => do
    let d ← take insn .immediate false
    let e ← secondWord insn d
    pushWords [e, .operand d, e, .operand d]
  | .dupX1, .two => do
    let d ← take insn .immediate false
    let e ← secondWord insn d
    let o ← take insn .immediate false
    pushWords [e, .operand d, .operand o, e, .operand d]
  | .dupX2, .two => do
    let d ← take insn .immediate false
    let e ← secondWord insn d
    let o ← take insn .immediate false
    let w ← anyWord insn
    pushWords [e, .operand d, w, .operand o, e, .operand d]
  | .swap, _ => do
    let a ← take insn .immediate false
    let b ← take insn .immediate false
    pushWords [.operand a, .operand b]

/-- Only the label of a handler does anything. If the handler has an entry of its own, the exception is on the stack already; otherwise
the label binds and pushes it. -/
def lowerLabel (m : Method) (insn : Nat) (label : Label) : LowerM Unit := do
  if m.handlerLabels.contains label then
    let s ← get
    if (s.handlerEntry? insn).isSome then
      if s.unit insn = [] then setUnit insn .nop
    else
      match (s.frame insn).out with
      | some o => push o false
      | none =>
        let r ← freshRegister
        let o ← newOperand insn (.ref .caughtException) (some r)
        modifyFrame insn fun f => { f with out := some o }
        setUnit insn (.caught o)
        push o false

/-- Lowers one operation of a method each time control reaches it. -/
def lowerOperation (m : Method) (insn : Nat) : Operation → LowerM Unit
  | .const c => do push (← produce insn [] (.immediate (.constant c))) c.isWide
  | .load kind index => do
    let r ← slotRegister index
    push (← produce insn [] (.register r)) kind.isWide
  | .store kind index => lowerStore insn kind index
  | .increment index amount => lowerIncrement insn index amount
  | .arrayLoad kind => lowerArrayLoad insn kind
  | .arrayStore kind => lowerArrayStore insn kind
  | .shuffle how count => lowerShuffle insn how count
  | .arithmetic kind op => lowerArithmetic insn kind op
  | .compare kind nan => lowerBinary insn (.ofNanOrder nan) kind.isWide kind.isWide false
  | .convert source target => lowerUnary insn source.isWide target.isWide (.cast · target.toType)
  | .arrayLength => lowerUnary insn false false .length
  | .cast type => lowerUnary insn false false (.cast · type)
  | .instanceOf type => lowerUnary insn false false (.instanceOf · type)
  | .new type => do push (← produce insn [] (.expr (.new type))) false
  | .newArray element => lowerUnary insn false false (.newArray element)
  | .newMultiArray type dims => lowerNewMultiArray insn type dims
  | .getStatic field => do push (← produce insn [] (.ref (.staticField field))) field.type.isWide
  | .putStatic field => lowerPutStatic insn field
  | .getField field => lowerGetField insn field
  | .putField field => lowerPutField insn field
  | .invoke kind method => lowerInvoke insn kind method
  | .invokeDynamic site => lowerInvokeDynamic insn site
  | .branch kind operands way target => lowerBranch insn kind operands way target
  | .jump target => emit insn [] (.goto target)
  | .switch default cases => lowerSwitch insn default cases
  | .return kind => lowerReturn insn kind
  | .throw => lowerConsumer insn .throw
  | .monitorEnter => lowerConsumer insn .enterMonitor
  | .monitorExit => lowerConsumer insn .exitMonitor
  | .nop => emit insn [] .nop
  | .line _ => pure ()
  | .label label => lowerLabel m insn label
  | .unhandled opcode mnemonic => fail (.unsupported insn opcode mnemonic)

end ThreeAddress.Lowering
