import ThreeAddress.Operation

/-!
# Values of three-address code

Expressions, references and calls over a type of operands. In a finished body every operand is an immediate, a register or a constant;
during lowering the operands are stack values that may still move into registers. `operands` lists the operands of a value in order and
`mapM` replaces each of them and leaves everything else as it is. Both go from left to right, except that `mapM` comes to the receiver of a
call after the arguments.
-/

namespace ThreeAddress

/-- The number of a register. -/
structure RegisterId where
  index : Nat
  deriving DecidableEq, Inhabited

/-- An operand of a finished statement. -/
inductive Immediate where
  | register (id : RegisterId)
  | constant (value : Constant)
  deriving DecidableEq, Inhabited

inductive BinaryOp where
  | add
  | sub
  | mul
  | div
  | rem
  | shl
  | shr
  | ushr
  | and
  | or
  | xor
  | cmp
  | cmpl
  | cmpg
  deriving DecidableEq, Inhabited

namespace BinaryOp

/-- A binary operation as an operator. -/
def text : BinaryOp → String
  | .add => "+"
  | .sub => "-"
  | .mul => "*"
  | .div => "/"
  | .rem => "%"
  | .shl => "<<"
  | .shr => ">>"
  | .ushr => ">>>"
  | .and => "&"
  | .or => "|"
  | .xor => "^"
  | .cmp => "cmp"
  | .cmpl => "cmpl"
  | .cmpg => "cmpg"

/-- The binary operation of an arithmetic instruction; negation has one operand. -/
def ofArithmetic? : Arithmetic → Option BinaryOp
  | .add => some .add
  | .sub => some .sub
  | .mul => some .mul
  | .div => some .div
  | .rem => some .rem
  | .shl => some .shl
  | .shr => some .shr
  | .ushr => some .ushr
  | .and => some .and
  | .or => some .or
  | .xor => some .xor
  | .neg => none

/-- The comparison that answers as the order of a not-a-number says. -/
def ofNanOrder : Option NanOrder → BinaryOp
  | none => .cmp
  | some .less => .cmpl
  | some .greater => .cmpg

end BinaryOp

/-- A comparison of two operands. -/
structure Condition (α : Type) where
  op : Comparison
  lhs : α
  rhs : α
  deriving DecidableEq, Inhabited

inductive InstanceKind where
  | virtual
  | special
  | interface
  deriving DecidableEq, Inhabited

/-- The word that announces a call on a receiver. -/
def InstanceKind.text : InstanceKind → String
  | .virtual => "virtualinvoke"
  | .special => "specialinvoke"
  | .interface => "interfaceinvoke"

inductive Invoke (α : Type) where
  | static (method : MethodRef) (args : List α)
  | instance (kind : InstanceKind) (base : α) (method : MethodRef) (args : List α)
  | dynamic (site : CallSite) (args : List α)
  deriving DecidableEq

inductive Expr (α : Type) where
  | binary (op : BinaryOp) (lhs rhs : α)
  | negate (value : α)
  | length (value : α)
  | cast (value : α) (type : ValueType)
  | instanceOf (value : α) (type : ValueType)
  | new (type : ValueType)
  | newArray (element : ValueType) (size : α)
  | newMultiArray (type : ValueType) (sizes : List α)
  | invoke (call : Invoke α)
  deriving DecidableEq

inductive Ref (α : Type) where
  | staticField (field : FieldRef)
  | instanceField (base : α) (field : FieldRef)
  | array (base index : α)
  | this (type : ValueType)
  | parameter (index : Nat) (type : ValueType)
  | caughtException
  deriving DecidableEq

/-- What can stand on the right side of an assignment. -/
inductive Rvalue (α : Type) where
  | immediate (value : Immediate)
  | expr (value : Expr α)
  | ref (value : Ref α)
  deriving DecidableEq

/-- A value whose operands are immediates. -/
abbrev Value := Rvalue Immediate

variable {α β : Type}

/-- Replaces both operands. -/
def Condition.mapM {m : Type → Type} [Monad m] (f : α → m β) (c : Condition α) : m (Condition β) := do
  return { op := c.op, lhs := ← f c.lhs, rhs := ← f c.rhs }

namespace Invoke

/-- The arguments, without the receiver. -/
def args : Invoke α → List α
  | .static _ args | .instance _ _ _ args | .dynamic _ args => args

/-- The receiver, if the call has one, and the arguments. -/
def operands : Invoke α → List α
  | .instance _ base _ args => base :: args
  | .static _ args | .dynamic _ args => args

/-- Replaces every operand: the arguments, then the receiver. -/
def mapM {m : Type → Type} [Monad m] (f : α → m β) : Invoke α → m (Invoke β)
  | .static method args => return .static method (← args.mapM f)
  | .instance kind base method args => do
    let args ← args.mapM f
    return .instance kind (← f base) method args
  | .dynamic site args => return .dynamic site (← args.mapM f)

end Invoke

namespace Expr

/-- The operands in order. -/
def operands : Expr α → List α
  | .binary _ lhs rhs => [lhs, rhs]
  | .negate v | .length v | .cast v _ | .instanceOf v _ => [v]
  | .new _ => []
  | .newArray _ size => [size]
  | .newMultiArray _ sizes => sizes
  | .invoke call => call.operands

/-- Replaces every operand. -/
def mapM {m : Type → Type} [Monad m] (f : α → m β) : Expr α → m (Expr β)
  | .binary op lhs rhs => return .binary op (← f lhs) (← f rhs)
  | .negate v => return .negate (← f v)
  | .length v => return .length (← f v)
  | .cast v t => return .cast (← f v) t
  | .instanceOf v t => return .instanceOf (← f v) t
  | .new t => return .new t
  | .newArray element size => return .newArray element (← f size)
  | .newMultiArray t sizes => return .newMultiArray t (← sizes.mapM f)
  | .invoke call => return .invoke (← call.mapM f)

end Expr

namespace Ref

/-- The operands in order. -/
def operands : Ref α → List α
  | .instanceField base _ => [base]
  | .array base index => [base, index]
  | .staticField _ | .this _ | .parameter _ _ | .caughtException => []

/-- Replaces every operand. -/
def mapM {m : Type → Type} [Monad m] (f : α → m β) : Ref α → m (Ref β)
  | .staticField field => return .staticField field
  | .instanceField base field => return .instanceField (← f base) field
  | .array base index => return .array (← f base) (← f index)
  | .this t => return .this t
  | .parameter index t => return .parameter index t
  | .caughtException => return .caughtException

end Ref

namespace Rvalue

/-- The value that is a register. -/
def register (r : RegisterId) : Rvalue α :=
  .immediate (.register r)

/-- The operands in order; an immediate has none. -/
def operands : Rvalue α → List α
  | .immediate _ => []
  | .expr e => e.operands
  | .ref r => r.operands

/-- Replaces every operand. -/
def mapM {m : Type → Type} [Monad m] (f : α → m β) : Rvalue α → m (Rvalue β)
  | .immediate i => return .immediate i
  | .expr e => return .expr (← e.mapM f)
  | .ref r => return .ref (← r.mapM f)

/-- The register that the value is, if it is one. -/
def asRegister? : Rvalue α → Option RegisterId
  | .immediate (.register r) => some r
  | _ => none

/-- The value is a constant. -/
def isConstant : Rvalue α → Bool
  | .immediate (.constant _) => true
  | _ => false

/-- The value is a register or a constant. -/
def isImmediate : Rvalue α → Bool
  | .immediate _ => true
  | _ => false

/-- The value with nothing in the places of its operands. -/
def shape (v : Rvalue α) : Rvalue Unit :=
  v.mapM (m := Id) fun _ => ()

end Rvalue
end ThreeAddress
