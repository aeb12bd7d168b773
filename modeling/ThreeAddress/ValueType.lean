/-!
# Value types

The types that a field, a parameter, a register or a stack word can have. Every type has a size in words: wide types take two words
of the operand stack and two local slots, `void` takes none, and every other type takes one. An array type keeps the number of its
dimensions beside its element, so that an array of arrays has one form; `arrayOf` keeps that form and refuses more than 255 dimensions.
-/

namespace ThreeAddress

/-- A type of the Java virtual machine, and `unknown` for a register whose type lowering does not infer. -/
inductive ValueType where
  | boolean
  | byte
  | char
  | short
  | int
  | long
  | float
  | double
  | void
  /-- A class or interface, by its binary name with dots. -/
  | object (name : String)
  /-- An array of `dims` dimensions over an element. -/
  | array (element : ValueType) (dims : Nat)
  | unknown
  deriving DecidableEq, Inhabited

namespace ValueType

/-- The binary name of a class: an internal name with a dot for every slash. -/
def binaryName (name : String) : String :=
  name.map fun c => if c = '/' then '.' else c

/-- The class type of an internal or binary name. -/
def ofName (name : String) : ValueType :=
  .object (binaryName name)

/-- The words that a value of the type takes on the operand stack and among the local slots. -/
def size : ValueType → Nat
  | .long | .double => 2
  | .void => 0
  | _ => 1

/-- A value of the type takes two words. -/
def isWide (t : ValueType) : Bool :=
  t.size == 2

/-- The most dimensions an array type can have. -/
def maxDims : Nat := 255

/-- The array of `dims` more dimensions; none when an array type would get more dimensions than there can be. -/
def arrayOf? (dims : Nat) : ValueType → Option ValueType
  | .array element inner => if inner + dims ≤ maxDims then some (.array element (inner + dims)) else none
  | t => some (.array t dims)

/-- The type as the source language writes it: an array as its element followed by one pair of brackets for each dimension. -/
def text : ValueType → String
  | .boolean => "boolean"
  | .byte => "byte"
  | .char => "char"
  | .short => "short"
  | .int => "int"
  | .long => "long"
  | .float => "float"
  | .double => "double"
  | .void => "void"
  | .unknown => "unknown"
  | .object name => name
  | .array element dims => element.text ++ String.join (List.replicate dims "[]")

/-- A parameter list without its parentheses. -/
def listText (ts : List ValueType) : String :=
  ",".intercalate (ts.map text)

theorem arrayOf?_array {e : ValueType} {n k : Nat} (h : n + k ≤ maxDims) : (array e n).arrayOf? k = some (.array e (n + k)) := by
  simp [arrayOf?, h]

end ValueType
end ThreeAddress
