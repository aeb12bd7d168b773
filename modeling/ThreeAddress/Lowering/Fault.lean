import ThreeAddress.Method
import ThreeAddress.IR.Value

/-!
# Faults

Why a method cannot be lowered. Instructions are named by their index in the code, labels and line numbers counted. Three of the faults
report a broken invariant of lowering itself, and `unfinished` an exhausted bound on the work; no method reaches these.
-/

namespace ThreeAddress

inductive Fault where
  | stackUnderflow (insn : Nat)
  /-- The stacks with which control arrives at an instruction do not agree. -/
  | inconsistentMerge (insn : Nat)
  | unsupported (insn : Nat) (opcode : UInt8) (mnemonic : String)
  /-- One word of a wide value is used without the other. -/
  | malformedWidePair (insn : Nat)
  | invalidLocal (index maxLocals : Nat)
  | undefinedLabel (label : Label)
  /-- An operand of a finished statement would be neither a register nor a constant. -/
  | notImmediate (insn : Nat)
  | stackEffect (insn : Nat) (expected actual : Int)
  /-- A second first statement for one instruction. -/
  | unitCollision (insn : Nat)
  /-- The register of an operand is not defined where the operand is produced. -/
  | missingDefinition (insn : Nat)
  /-- The bound on the number of tasks is used up. -/
  | unfinished
  deriving DecidableEq, Inhabited

/-- A byte as two hexadecimal digits with the mark of the base. -/
def byteText (b : UInt8) : String :=
  "0x" ++ String.ofList ((if b < 16 then ['0'] else []) ++ Nat.toDigits 16 b.toNat)

/-- The text of a fault. -/
def Fault.message : Fault → String
  | .stackUnderflow insn => "operand stack underflow at instruction " ++ toString insn
  | .inconsistentMerge insn => "inconsistent operand stacks merge at instruction " ++ toString insn
  | .unsupported insn opcode mnemonic =>
    "unsupported instruction `" ++ mnemonic ++ "` (opcode " ++ byteText opcode ++ ") at instruction " ++ toString insn
  | .malformedWidePair insn => "wide value at instruction " ++ toString insn ++ " is not paired with its second slot"
  | .invalidLocal index maxLocals =>
    "local slot " ++ toString index ++ " is out of range (max_locals is " ++ toString maxLocals ++ ")"
  | .undefinedLabel label => "label Label(" ++ toString label.number ++ ") does not occur in the instruction stream"
  | .notImmediate insn => "operand at instruction " ++ toString insn ++ " is not a local or a constant"
  | .stackEffect insn expected actual =>
    "instruction " ++ toString insn ++ " changed stack depth by " ++ toString actual ++ ", expected " ++ toString expected
  | .unitCollision insn => "instruction " ++ toString insn ++ " already holds a statement"
  | .missingDefinition insn => "no defining statement for the operand produced at instruction " ++ toString insn
  | .unfinished => "the bound on the number of tasks is used up"

/-- Why lowering a method failed, with the method's text. -/
structure Failure where
  method : String
  fault : Fault
  deriving DecidableEq, Inhabited

/-- The text of a failure. -/
def Failure.message (f : Failure) : String :=
  "cannot lower " ++ f.method ++ ": " ++ f.fault.message

end ThreeAddress
