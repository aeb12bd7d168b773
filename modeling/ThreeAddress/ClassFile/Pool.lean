import ThreeAddress.ClassFile.Reader
import ThreeAddress.Constant
import ThreeAddress.Text.Utf8

/-!
# Constant pools

The entries of a constant pool as they stand in a class file, referring to each other by index, and how they are read. An entry of eight
bytes takes two indices; the second of them is unusable.
-/

namespace ThreeAddress.ClassFile

inductive PoolEntry where
  | utf8 (bytes : List UInt8)
  | integer (value : Int32)
  | float (bits : UInt32)
  | long (value : Int64)
  | double (bits : UInt64)
  | classInfo (name : Nat)
  | string (text : Nat)
  | fieldRef (owner nameAndType : Nat)
  | methodRef (owner nameAndType : Nat)
  | interfaceMethodRef (owner nameAndType : Nat)
  | nameAndType (name descriptor : Nat)
  | methodHandle (kind reference : Nat)
  | methodType (descriptor : Nat)
  | invokeDynamic (bootstrap nameAndType : Nat)
  | unusable
  deriving DecidableEq, Inhabited

namespace PoolEntry

/-- The fields of an entry in braces after its name. -/
def recordText (name : String) (fields : List (String × String)) : String :=
  name ++ "(" ++ name ++ "Constant \x7b " ++ ", ".intercalate (fields.map fun (k, v) => k ++ ": " ++ v) ++ " \x7d)"

/-- The text of an entry in an error. -/
def text : PoolEntry → String
  | .utf8 bytes =>
    recordText "Utf8" [("utf8_string", Text.quoted (Text.ofBytes bytes)),
      ("bytes", "[" ++ ", ".intercalate (bytes.map fun b => toString b.toNat) ++ "]")]
  | .integer v => recordText "Integer" [("value", toString v.toInt)]
  | .float bits => recordText "Float" [("value", Decimal.singleText bits)]
  | .long v => recordText "Long" [("value", toString v.toInt)]
  | .double bits => recordText "Double" [("value", Decimal.doubleText bits)]
  | .classInfo name => recordText "Class" [("name_index", toString name)]
  | .string s => recordText "String" [("string_index", toString s)]
  | .fieldRef c n => recordText "FieldRef" [("class_index", toString c), ("name_and_type_index", toString n)]
  | .methodRef c n => recordText "MethodRef" [("class_index", toString c), ("name_and_type_index", toString n)]
  | .interfaceMethodRef c n => recordText "InterfaceMethodRef" [("class_index", toString c), ("name_and_type_index", toString n)]
  | .nameAndType n d => recordText "NameAndType" [("name_index", toString n), ("descriptor_index", toString d)]
  | .methodHandle k r => recordText "MethodHandle" [("reference_kind", toString k), ("reference_index", toString r)]
  | .methodType d => recordText "MethodType" [("descriptor_index", toString d)]
  | .invokeDynamic b n =>
    recordText "InvokeDynamic" [("bootstrap_method_attr_index", toString b), ("name_and_type_index", toString n)]
  | .unusable => "Unusable"

/-- The indices that an entry takes. -/
def width : PoolEntry → Nat
  | .long _ | .double _ => 2
  | _ => 1

open Reader in
/-- Reads what follows the tag of an entry. -/
def readBody (tag : UInt8) : Reader PoolEntry := do
  match tag with
  | 1 => return .utf8 (← bytes (← u2))
  | 3 => return .integer (← s4)
  | 4 => return .float (UInt32.ofNat (← u4))
  | 5 => return .long (Int64.ofInt (← unsigned 8))
  | 6 => return .double (UInt64.ofNat (← unsigned 8))
  | 7 => return .classInfo (← u2)
  | 8 => return .string (← u2)
  | 9 => return .fieldRef (← u2) (← u2)
  | 10 => return .methodRef (← u2) (← u2)
  | 11 => return .interfaceMethodRef (← u2) (← u2)
  | 12 => return .nameAndType (← u2) (← u2)
  | 15 => return .methodHandle (← u1).toNat (← u2)
  | 16 => return .methodType (← u2)
  | 18 => return .invokeDynamic (← u2) (← u2)
  | _ => failure

/-- Reads an entry. -/
def read : Reader PoolEntry := do
  readBody (← Reader.u1)

/-- Reads entries until they take `room` indices. An entry of two indices may take one more than there is room for. -/
def readUpTo (room : Nat) : Reader (List PoolEntry) := do
  match room with
  | 0 => return []
  | rest + 1 =>
    let e ← read
    if e.width = 2 then return e :: .unusable :: (← readUpTo (rest - 1))
    else return e :: (← readUpTo rest)

/-- Reads a count and the entries; there is one entry less than the count says, and the count is a number of 16 bits. -/
def readAll : Reader (List PoolEntry) := do
  readUpTo (((← Reader.u2) + 65535) % 65536)

end PoolEntry
end ThreeAddress.ClassFile
