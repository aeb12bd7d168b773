import ThreeAddress.Lowering.State

/-!
# Laying out a body

The statements of a body in order: the identities of the receiver and the parameters, the units of the instructions, the entries of
shared handlers, and one statement that does nothing if a label stands behind the last unit. A label names the first statement of the
first unit at or behind it. What each operand stands for is looked up here, once no operand can change its register any more.
-/

namespace ThreeAddress

/-- A statement on its way into a body: the instruction it comes from and its source line. -/
structure Placed where
  draft : Draft
  insn : Nat
  line : Option Nat
  deriving DecidableEq

/-- A value that a method receives: the slot it arrives in, its type, and the reference by which a body names it. -/
structure Incoming where
  slot : Nat
  type : ValueType
  source : Ref Immediate
  deriving DecidableEq

namespace Layout

/-- The parameters from number `k` on, the first of them in a given slot; each takes as many slots as it has words. -/
def incomingParams (k slot : Nat) : List ValueType → List Incoming
  | [] => []
  | t :: ts => { slot, type := t, source := .parameter k t } :: incomingParams (k + 1) (slot + t.size) ts

/-- The receiver, if there is one, and the parameters. -/
def incoming (m : Method) : List Incoming :=
  if m.isStatic then incomingParams 0 0 m.signature.params
  else
    let type := ValueType.ofName m.className
    { slot := 0, type, source := .this type } :: incomingParams 0 1 m.signature.params

/-- Declares the slots of what the method receives, and the identities that bind them. -/
def declareIncoming (rs : Registers) : List Incoming → Except Fault (List Located × Registers)
  | [] => .ok ([], rs)
  | i :: rest => do
    let (id, rs) ← rs.declare i.slot i.type
    let (stmts, rs) ← declareIncoming rs rest
    return ({ stmt := .identity id i.source, line := none } :: stmts, rs)

/-- The source line of each operation: that of the last line number at or before it. -/
def linesFrom (line : Option Nat) : List Operation → List (Option Nat)
  | [] => []
  | op :: ops =>
    let line := match op with
      | .line n => some n
      | _ => line
    line :: linesFrom line ops

/-- The source line of each operation if lines are kept, and none otherwise. -/
def sourceLines (m : Method) (keepLines : Bool) : List (Option Nat) :=
  if keepLines then linesFrom none m.code else m.code.map fun _ => none

/-- Puts a handler entry in front of the first whose label stands behind its own. -/
def insertEntry (e : HandlerEntry) : List HandlerEntry → List HandlerEntry
  | [] => [e]
  | f :: fs => if e.insn ≤ f.insn then e :: f :: fs else f :: insertEntry e fs

/-- The entries of shared handlers in the order of their labels. -/
def sortedEntries (s : State) : List HandlerEntry :=
  s.handlerEntries.foldr insertEntry []

/-- What the positions of a body depend on: the method, its final state, and the number of identities before the first unit. -/
structure Plan where
  method : Method
  state : State
  identities : Nat

namespace Plan

/-- The position of the first statement of an instruction or, if it has none, of the statement after it. -/
def unitStart (p : Plan) (insn : Nat) : Nat :=
  p.identities + (p.state.units.toList.take insn).flatten.length

/-- The position of the first handler entry. -/
def entriesStart (p : Plan) : Nat :=
  p.unitStart p.state.units.size

/-- The position behind the last handler entry. -/
def endPosition (p : Plan) : Nat :=
  p.entriesStart + 2 * p.state.handlerEntries.length

/-- No instruction from `insn` on has a statement. -/
def isTrailing (p : Plan) (insn : Nat) : Bool :=
  (p.state.units.toList.drop insn).all List.isEmpty

/-- The position of the first statement at or behind an instruction. -/
def position (p : Plan) (insn : Nat) : Nat :=
  if p.isTrailing insn then p.endPosition else p.unitStart insn

/-- Some label stands behind the last unit. -/
def needsEnd (p : Plan) : Bool :=
  p.method.code.zipIdx.any fun (op, i) =>
    match op with
    | .label _ => p.isTrailing i
    | _ => false

/-- The last instruction that is the label. -/
def lastLabelIndex? (p : Plan) (l : Label) : Option Nat :=
  (p.method.code.zipIdx.reverse.find? fun (op, _) => op == .label l).map (·.2)

/-- The statement that a label names. -/
def target (p : Plan) (l : Label) : Except Fault Nat :=
  match p.lastLabelIndex? l with
  | some i => .ok (p.position i)
  | none => .error (.undefinedLabel l)

/-- The instruction binds a caught exception and is the label. -/
def bindsAt (p : Plan) (l : Label) (insn : Nat) : Bool :=
  p.method.code[insn]? == some (.label l) &&
    match (p.state.unit insn).head? with
    | some (.caught _) => true
    | _ => false

/-- The statement to which an exception goes that is caught at a label: the entry of the handler if it has one of its own, the
statement that binds the exception otherwise. -/
def handlerTarget (p : Plan) (l : Label) : Except Fault Nat :=
  match (sortedEntries p.state).findIdx? (·.label == l) with
  | some k => .ok (p.entriesStart + 2 * k)
  | none =>
    match (List.range p.method.code.length).reverse.find? (p.bindsAt l) with
    | some i => .ok (p.unitStart i)
    | none => p.target l

/-- The register or constant that an operand stands for. -/
def immediate (p : Plan) (insn : Nat) (o : OperandId) : Except Fault Immediate :=
  match p.state.content o with
  | .immediate i => .ok i
  | _ => .error (.notImmediate insn)

/-- The value that an operand stands for, its own operands looked up. -/
def value (p : Plan) (insn : Nat) (v : Rvalue OperandId) : Except Fault Value :=
  v.mapM (p.immediate insn)

/-- The register of an operand. -/
def register (p : Plan) (insn : Nat) (o : OperandId) : Except Fault RegisterId :=
  match (p.state.content o).asRegister? with
  | some r => .ok r
  | none => .error (.missingDefinition insn)

def comparand (p : Plan) (insn : Nat) : Comparand → Except Fault Immediate
  | .operand o => p.immediate insn o
  | .constant c => .ok (.constant c)

/-- The finished form of a statement. -/
def finish (p : Plan) (insn : Nat) : Draft → Except Fault Stmt
  | .nop => .ok .nop
  | .caught o => do return .identity (← p.register insn o) .caughtException
  | .define o => do return .assign (.register (← p.register insn o)) (← p.value insn (p.state.operand o).value)
  | .copy r o => do return .assign (.register r) (← p.value insn (p.state.content o))
  | .increment r amount =>
    .ok (.assign (.register r) (.expr (.binary .add (.register r) (.constant (.int amount.toInt32)))))
  | .write place o => do return .assign (.ref (← place.mapM (p.immediate insn))) (← p.value insn (p.state.content o))
  | .invoke call => do return .invoke (← call.mapM (p.immediate insn))
  | .branch way lhs rhs target => do
    let lhs ← p.immediate insn lhs
    let rhs ← p.comparand insn rhs
    return .branch { op := way, lhs, rhs } (← p.target target)
  | .goto target => do return .goto (← p.target target)
  | .switch key keys targets default => do
    let key ← p.immediate insn key
    let targets ← targets.mapM p.target
    return .switch key keys targets (← p.target default)
  | .return o => do return .return (← p.immediate insn o)
  | .returnVoid => .ok .returnVoid
  | .throw o => do return .throw (← p.immediate insn o)
  | .enterMonitor o => do return .enterMonitor (← p.immediate insn o)
  | .exitMonitor o => do return .exitMonitor (← p.immediate insn o)

/-- The statements behind the identities, in order. -/
def placed (p : Plan) (lines : List (Option Nat)) : List Placed :=
  let lineAt (insn : Nat) : Option Nat := lines[insn]?.join
  let units := (p.state.units.toList.zip lines).zipIdx.flatMap fun ((unit, line), insn) =>
    unit.map fun draft => ⟨draft, insn, line⟩
  let entries := (sortedEntries p.state).flatMap fun e =>
    [{ draft := .caught e.operand, insn := e.insn, line := lineAt e.insn },
      { draft := .goto e.label, insn := e.insn, line := lineAt e.insn }]
  units ++ entries ++ if p.needsEnd then [{ draft := .nop, insn := p.method.code.length, line := none }] else []

/-- The protected region of an entry of the exception table. Without a class it catches everything that can be thrown. -/
def trap (p : Plan) (e : ExceptionEntry) : Except Fault Trap := do
  let handler ← p.handlerTarget e.handler
  let first ← p.target e.first
  let last ← p.target e.last
  return { exception := .ofName (e.catchType.getD "java.lang.Throwable"), first, last, handler }

end Plan

/-- Lays out the body of a method from the state in which nothing is left to visit. -/
def body (m : Method) (keepLines : Bool) (s : State) : Except Fault Body := do
  let incoming := incoming m
  let (identities, registers) ← declareIncoming s.registers incoming
  let plan : Plan := { method := m, state := s, identities := identities.length }
  let rest ← (plan.placed (sourceLines m keepLines)).mapM fun p => do
    return { stmt := ← plan.finish p.insn p.draft, line := p.line : Located }
  let traps ← m.exceptions.mapM plan.trap
  let stmts := identities ++ rest
  return {
    signature := m.text
    registers := registers.ordered (incoming.map (·.slot))
    stmts
    traps
    edges := controlEdges (stmts.map (·.stmt)) }

end Layout
end ThreeAddress
