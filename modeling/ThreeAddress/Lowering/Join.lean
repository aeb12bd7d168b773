import ThreeAddress.Lowering.State

/-!
# Joins

An instruction that control reaches more than once keeps the statement of its first visit. Its operands differ from visit to visit, so
on every later visit the values that arrive at one position are made to arrive in one register, which the visits share: a value without
a register is evaluated into it where it is produced, a value in a register of its own is renamed or, once the shared register is fixed,
copied.
-/

namespace ThreeAddress.Lowering

/-- The first statement of the instruction that produces an operand, or the entry of a handler, gives the operand its register. -/
def definesOperand (s : State) (o : OperandId) : Bool :=
  let insn := (s.operand o).insn
  match s.handlerEntry? insn with
  | some e => e.operand == o
  | none => (s.unit insn).head? == some (.define o) || (s.unit insn).head? == some (.caught o)

/-- Moves an operand into a register: evaluates it there, or renames the register it has. -/
def rebind (o : OperandId) (r : RegisterId) : LowerM Unit := do
  let s ← get
  match (s.operand o).register with
  | none => bind o r
  | some q =>
    if q ≠ r then
      if definesOperand s o then setRegister o r else fail (.missingDefinition (s.operand o).insn)

/-- Brings an operand into a register that is fixed already: evaluates it there, or copies it where it was produced. -/
def bringInto (o : OperandId) (r : RegisterId) : LowerM Unit := do
  let p := (← get).operand o
  match p.register with
  | none => bind o r
  | some q => if q ≠ r then appendUnit p.insn (.copy r o)

/-- The register in which the operands of one position can meet: the first that one of them has, or a fresh one. -/
def meetingRegister (column : List OperandId) : LowerM RegisterId := do
  let s ← get
  match column.findSome? fun o => (s.operand o).register with
  | some r => return r
  | none => freshRegister

/-- Joins an operand with those that arrived at the same position before; the register they share from now on. -/
def joinAt (column : List OperandId) (shared : Option RegisterId) (o : OperandId) : LowerM RegisterId := do
  match shared with
  | some r =>
    bringInto o r
    return r
  | none =>
    let r ← meetingRegister (column ++ [o])
    (column ++ [o]).forM (rebind · r)
    return r

/-- The operands at a position of every row. -/
def column (rows : List (List OperandId)) (i : Nat) : List OperandId :=
  rows.filterMap (·[i]?)

/-- Joins the operands of a later visit of an instruction, position by position, with those of the visits before it. -/
def joinInputs (insn : Nat) (row : List OperandId) : LowerM Unit := do
  unless row = [] do
    let f := (← get).frame insn
    unless f.rows.head?.map List.length = some row.length do fail (.inconsistentMerge insn)
    let shared ← row.zipIdx.mapM fun (o, i) => joinAt (column f.rows i) (f.shared[i]?.join) o
    modifyFrame insn fun f => { f with rows := f.rows ++ [row], shared := shared.map some }

/-- Records the operands of a first visit. -/
def setInputs (insn : Nat) (row : List OperandId) : LowerM Unit :=
  modifyFrame insn fun f => { f with rows := [row], shared := row.map fun _ => none }

end ThreeAddress.Lowering
