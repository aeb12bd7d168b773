import ThreeAddress.Constant

/-!
# Stack operations

The instructions of stack code, with their operands resolved: constants and members instead of indices into a constant pool, labels
instead of byte offsets. Labels and line numbers are operations of their own among the others. `stackEffect` is the number of words by
which an operation changes the depth of the operand stack, `jumpTargets` the labels to which it may transfer control.
-/

namespace ThreeAddress

/-- The category of the values on which an instruction works. -/
inductive Kind where
  | int
  | long
  | float
  | double
  | object
  | byte
  | char
  | short
  | void
  deriving DecidableEq, Inhabited

namespace Kind

/-- The words that a value of the kind takes. -/
def size : Kind → Nat
  | .long | .double => 2
  | .void => 0
  | _ => 1

/-- A value of the kind takes two words. -/
def isWide (k : Kind) : Bool :=
  k.size == 2

/-- The type that stands for the kind. -/
def toType : Kind → ValueType
  | .int => .int
  | .long => .long
  | .float => .float
  | .double => .double
  | .byte => .byte
  | .char => .char
  | .short => .short
  | .void => .void
  | .object => .object "java.lang.Object"

end Kind

/-- A position in code that branches, switches and exception ranges name. -/
structure Label where
  number : Nat
  deriving DecidableEq, Inhabited, Hashable

inductive Comparison where
  | eq
  | ne
  | lt
  | ge
  | gt
  | le
  deriving DecidableEq, Inhabited

/-- A comparison as an operator. -/
def Comparison.text : Comparison → String
  | .eq => "=="
  | .ne => "!="
  | .lt => "<"
  | .ge => ">="
  | .gt => ">"
  | .le => "<="

inductive Arithmetic where
  | add
  | sub
  | mul
  | div
  | rem
  | neg
  | shl
  | shr
  | ushr
  | and
  | or
  | xor
  deriving DecidableEq, Inhabited

/-- The distance of a shift is one word, whatever the kind of the value shifted. -/
def Arithmetic.isShift : Arithmetic → Bool
  | .shl | .shr | .ushr => true
  | _ => false

/-- What a comparison of floating-point numbers answers for a value that is not a number. -/
inductive NanOrder where
  | greater
  | less
  deriving DecidableEq, Inhabited

/-- The number of words, or of values, on which an instruction works. -/
inductive Count where
  | one
  | two
  deriving DecidableEq, Inhabited

/-- The count as a number. -/
def Count.toNat : Count → Nat
  | .one => 1
  | .two => 2

/-- How an instruction rearranges the top of the stack. -/
inductive Shuffle where
  | pop
  | dup
  | dupX1
  | dupX2
  | swap
  deriving DecidableEq, Inhabited

inductive InvokeKind where
  | interface
  | special
  | static
  | virtual
  deriving DecidableEq, Inhabited

/-- The call has a receiver. -/
def InvokeKind.hasReceiver : InvokeKind → Bool
  | .static => false
  | _ => true

/-- The cases of a switch, as pairs of a key and a label or as one label for each key of a range. -/
inductive Cases where
  | lookup (pairs : List (Int32 × Label))
  | table (low high : Int32) (targets : List Label)
  deriving DecidableEq, Inhabited

/-- The labels of the cases, in order. -/
def Cases.targets : Cases → List Label
  | .lookup pairs => pairs.map (·.2)
  | .table _ _ targets => targets

inductive Operation where
  | const (value : Constant)
  | load (kind : Kind) (index : Nat)
  | store (kind : Kind) (index : Nat)
  | increment (index : Nat) (amount : Int16)
  | arrayLoad (kind : Kind)
  | arrayStore (kind : Kind)
  | shuffle (how : Shuffle) (count : Count)
  | arithmetic (kind : Kind) (op : Arithmetic)
  | compare (kind : Kind) (nan : Option NanOrder)
  | convert (source target : Kind)
  | arrayLength
  | cast (type : ValueType)
  | instanceOf (type : ValueType)
  | new (type : ValueType)
  | newArray (element : ValueType)
  | newMultiArray (type : ValueType) (dims : Nat)
  | getStatic (field : FieldRef)
  | putStatic (field : FieldRef)
  | getField (field : FieldRef)
  | putField (field : FieldRef)
  | invoke (kind : InvokeKind) (method : MethodRef)
  | invokeDynamic (site : CallSite)
  /-- Compares two values, or one value with zero or null. -/
  | branch (kind : Kind) (operands : Count) (way : Comparison) (target : Label)
  | jump (target : Label)
  | switch (default : Label) (cases : Cases)
  | return (kind : Kind)
  | throw
  | monitorEnter
  | monitorExit
  | nop
  | line (number : Nat)
  | label (label : Label)
  /-- An instruction that has no three-address form. -/
  | unhandled (opcode : UInt8) (mnemonic : String)
  deriving DecidableEq, Inhabited

namespace Operation

/-- The words of a list of parameters. -/
def paramWords (params : List ValueType) : Nat :=
  params.foldr (·.size + ·) 0

/-- The change of the stack depth, in words, that the operation alone fixes. A label may push a caught exception, and nothing follows
a throw; these have none. -/
def stackEffect : Operation → Option Int
  | .label _ | .throw | .unhandled _ _ => none
  | .nop | .line _ | .jump _ | .increment _ _ | .arrayLength | .cast _ | .instanceOf _ | .newArray _ => some 0
  | .new _ => some 1
  | .newMultiArray _ dims => some (1 - dims)
  | .arithmetic kind op => some (if op = .neg then 0 else if op.isShift then -1 else -kind.size)
  | .compare kind _ => some (1 - 2 * kind.size)
  | .convert source target => some (target.size - source.size)
  | .branch _ operands _ _ => some (-operands.toNat)
  | .switch _ _ | .monitorEnter | .monitorExit => some (-1)
  | .return kind => some (-kind.size)
  | .const c => some c.size
  | .load kind _ => some kind.size
  | .store kind _ => some (-kind.size)
  | .arrayLoad kind => some (kind.size - 2)
  | .arrayStore kind => some (-2 - kind.size)
  | .shuffle .pop count => some (-count.toNat)
  | .shuffle .swap _ => some 0
  | .shuffle _ count => some count.toNat
  | .getStatic field => some field.type.size
  | .putStatic field => some (-field.type.size)
  | .getField field => some (field.type.size - 1)
  | .putField field => some (-1 - field.type.size)
  | .invoke kind method =>
    some (method.signature.ret.size - paramWords method.signature.params - if kind.hasReceiver then 1 else 0)
  | .invokeDynamic site => some (site.signature.ret.size - paramWords site.signature.params)

/-- The labels to which the operation may transfer control, besides the operation after it. -/
def jumpTargets : Operation → List Label
  | .branch _ _ _ target | .jump target => [target]
  | .switch default cases => cases.targets ++ [default]
  | _ => []

end Operation
end ThreeAddress
