import ThreeAddress.Lowering.State

/-!
# Entries of shared handlers

The code of an exception handler that normal control flow jumps to has two kinds of arrival: with an exception just caught, and with a
value on the stack. Such a handler gets an entry of its own, made before anything is visited, that binds the caught exception to a
register; the shared code then finds a value on the stack in either case.
-/

namespace ThreeAddress.Lowering

/-- The instruction that a label names. -/
def labelIndex (m : Method) (l : Label) : Except Fault Nat :=
  match m.labelIndex? l with
  | some i => .ok i
  | none => .error (.undefinedLabel l)

/-- A label needs an entry of its own: it is jumped to, and its instruction has none yet. -/
def needsEntry (m : Method) (s : State) (insn : Nat) (l : Label) : Bool :=
  (s.handlerEntry? insn).isNone && m.isJumpTarget l

/-- Makes the entry of a handler if it needs one; the number of entries made. -/
def addHandlerEntry (m : Method) (label : Label) : LowerM Nat := do
  let insn ← labelIndex m label
  if needsEntry m (← get) insn label then
    let r ← freshRegister
    let operand ← newOperand insn (.ref .caughtException) (some r)
    modify fun s => { s with handlerEntries := s.handlerEntries ++ [⟨insn, label, operand⟩] }
    return 1
  else return 0

/-- Makes the entries of all handlers that need one; the number of entries made. -/
def addHandlerEntries (m : Method) : LowerM Nat := do
  return (← m.handlerLabels.mapM (addHandlerEntry m)).foldr (· + ·) 0

end ThreeAddress.Lowering
