import ThreeAddress.Operation

/-!
# Methods

A method as stack code: its signature, its local slots, its operations with labels among them, its exception table in terms of these
labels, and the declared names of its local slots.
-/

namespace ThreeAddress

/-- An entry of the exception table: an exception raised from `first` up to but not including `last` goes to `handler`. -/
structure ExceptionEntry where
  first : Label
  last : Label
  handler : Label
  /-- The class of the exceptions caught; none catches all. -/
  catchType : Option String
  deriving DecidableEq, Inhabited

/-- A declared name of a local slot. -/
structure LocalName where
  index : Nat
  name : String
  deriving DecidableEq, Inhabited

structure Method where
  className : String
  name : String
  signature : Signature
  isStatic : Bool
  maxLocals : Nat
  maxStack : Nat
  code : List Operation
  exceptions : List ExceptionEntry
  localNames : List LocalName
  deriving DecidableEq, Inhabited

namespace Method

/-- The method in angle brackets: class, result, name and parameters. -/
def text (m : Method) : String :=
  MethodRef.text { className := m.className, name := m.name, signature := m.signature }

/-- The index of the first operation that is the label. -/
def labelIndex? (m : Method) (l : Label) : Option Nat :=
  m.code.findIdx? (· == .label l)

/-- The labels of exception handlers, each once, in the order of the exception table. -/
def handlerLabels (m : Method) : List Label :=
  (m.exceptions.map (·.handler)).eraseDups

/-- Some operation may transfer control to the label. -/
def isJumpTarget (m : Method) (l : Label) : Bool :=
  m.code.any fun op => op.jumpTargets.contains l

/-- The labels that the exception table and then the code refer to, in order. -/
def referredLabels (m : Method) : List Label :=
  m.exceptions.flatMap (fun e => [e.first, e.last, e.handler]) ++ m.code.flatMap (·.jumpTargets)

end Method
end ThreeAddress
