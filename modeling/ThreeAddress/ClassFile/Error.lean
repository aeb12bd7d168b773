import ThreeAddress.ClassFile.Instruction
import ThreeAddress.ClassFile.Pool

/-!
# Errors in class files

Why the methods of a class file that could be read cannot be brought into the form that lowering takes.
-/

namespace ThreeAddress.ClassFile

/-- What an index into the constant pool was to name. -/
inductive Expectation where
  | string
  | classInfo
  | nameAndType
  | member
  | methodHandle
  | method
  | callSite
  deriving DecidableEq, Inhabited

def Expectation.text : Expectation → String
  | .string => "a string"
  | .classInfo => "a class"
  | .nameAndType => "a name and type"
  | .member => "a member reference"
  | .methodHandle => "a method handle"
  | .method => "a method"
  | .callSite => "a call site"

inductive ClassError where
  | outOfRange (index : Nat)
  | unexpected (expectation : Expectation) (index : Nat) (found : PoolEntry)
  | notLoadable (index : Nat) (found : PoolEntry)
  | descriptor (error : DescriptorError)
  | oddLength (length : Nat)
  | emptyTable
  /-- A table holds another number of words than its count says. -/
  | tableSize (words count width : Nat)
  | emptyBootstrap
  | truncatedBootstrap
  /-- The bytes of a code attribute end too soon. -/
  | truncatedCode
  | leavesMethod (address : Nat)
  | noLabel (offset : Nat)
  | badArrayType (code : Nat)
  | noOperandKind (i : Instruction)
  deriving DecidableEq, Inhabited

/-- The text of an error. -/
def ClassError.message : ClassError → String
  | .outOfRange index => "constant pool index " ++ toString index ++ " out of range"
  | .unexpected expectation index found =>
    "expected " ++ expectation.text ++ " at constant " ++ toString index ++ ", found " ++ found.text
  | .notLoadable index found => "constant " ++ toString index ++ " is not loadable: " ++ found.text
  | .descriptor error => error.message
  | .oddLength length => "attribute of odd length " ++ toString length
  | .emptyTable => "empty attribute"
  | .tableSize words count width =>
    "attribute holds " ++ toString words ++ " words, expected " ++ toString count ++ " entries of " ++ toString width
  | .emptyBootstrap => "empty BootstrapMethods attribute"
  | .truncatedBootstrap => "truncated BootstrapMethods attribute"
  | .truncatedCode => "unknown error"
  | .leavesMethod address => "branch at " ++ toString address ++ " leaves the method"
  | .noLabel offset => "no label at offset " ++ toString offset
  | .badArrayType code => "bad newarray type " ++ toString code
  | .noOperandKind i => "no operand type for " ++ i.text

/-- A result that a descriptor gives, its error as one of the class file. -/
def ofDescriptorResult {α : Type} (r : Except DescriptorError α) : Except ClassError α :=
  r.mapError .descriptor

end ThreeAddress.ClassFile
