import ThreeAddress.Decimal.Literal
import ThreeAddress.Member
import ThreeAddress.Text.Quoted

/-!
# Constants

The constants that code can load. Floating-point constants are kept as their bits, so equality of constants tells zeros of different
sign apart and makes a not-a-number equal to itself.
-/

namespace ThreeAddress

inductive Constant where
  | null
  | int (value : Int32)
  | long (value : Int64)
  /-- A single-precision number by its bits. -/
  | float (bits : UInt32)
  /-- A double-precision number by its bits. -/
  | double (bits : UInt64)
  | string (value : String)
  | classType (type : ValueType)
  | methodType (signature : Signature)
  | methodHandle (handle : MethodHandle)
  deriving DecidableEq, Inhabited

namespace Constant

/-- The constant takes two words. -/
def isWide : Constant → Bool
  | .long _ | .double _ => true
  | _ => false

/-- The words that the constant takes. -/
def size (c : Constant) : Nat :=
  if c.isWide then 2 else 1

/-- A constant as it stands in a listing of a body. -/
def text : Constant → String
  | .null => "null"
  | .int v => toString v.toInt
  | .long v => toString v.toInt ++ "L"
  | .float bits => Decimal.singleText bits ++ "F"
  | .double bits => Decimal.doubleText bits
  | .string s => Text.quoted s
  | .classType t => "class \"" ++ t.text ++ "\""
  | .methodType sig => "methodtype: " ++ sig.ret.text ++ " __METHODTYPE__(" ++ ValueType.listText sig.params ++ ")"
  | .methodHandle h => h.text

end Constant

/-- A call site whose target is computed when the program runs: what it is called, its signature, and what computes its target. -/
structure CallSite where
  name : String
  signature : Signature
  bootstrap : Option MethodHandle
  bootstrapArgs : List Constant
  deriving DecidableEq, Inhabited

/-- A call site as its quoted name, its result, its name and its parameters. -/
def CallSite.text (s : CallSite) : String :=
  "\"" ++ s.name ++ "\" <" ++ s.signature.ret.text ++ " " ++ s.name ++ "(" ++ ValueType.listText s.signature.params ++ ")>"

end ThreeAddress
