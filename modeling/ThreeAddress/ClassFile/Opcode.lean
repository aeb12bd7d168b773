import ThreeAddress.ClassFile.Instruction
import ThreeAddress.ClassFile.Reader

/-!
# Decoding byte code

The instruction for which an opcode and the bytes after it stand. `decode` takes one instruction after another from code, with the
address of each, and stops where the bytes end or do not form an instruction.
-/

namespace ThreeAddress.ClassFile

namespace Instruction

open Reader

/-- An index of two bytes. -/
def readIndex : Reader UInt16 := do
  return UInt16.ofNat (← u2)

/-- The instruction after the opcode that widens its index. -/
def readWide : Reader Instruction := do
  let opcode := (← u1).toNat
  let index ← readIndex
  match Access.table.ofOpcode? opcode, opcode with
  | some how, _ => return .accessWide how index
  | none, 0x84 => return .iincWide index (← s2)
  | none, 0xa9 => return .retWide index
  | none, _ => failure

/-- The filler after the opcode of a switch: up to an address that is a multiple of four. -/
def skipFiller (address : Nat) : Reader Unit := do
  let _ ← bytes (3 - address % 4)

def readTableSwitch (address : Nat) : Reader Instruction := do
  skipFiller address
  let default ← s4
  let low ← s4
  let high ← s4
  let count := (high - low + 1).toInt
  ensure (0 ≤ count)
  return .tableswitch default low high (← many s4 count.toNat)

def readLookupSwitch (address : Nat) : Reader Instruction := do
  skipFiller address
  let default ← s4
  let count ← u4
  return .lookupswitch default (← many (do return (← s4, ← s4)) count)

/-- Reads what follows the opcode of an instruction with an operand, at an address. -/
def readFurther (address opcode : Nat) : Reader Instruction := do
  match opcode with
  | 0x10 => return .bipush (← s1)
  | 0x11 => return .sipush (← s2)
  | 0x12 => return .ldc (← u1)
  | 0x13 => return .ldcW (← readIndex)
  | 0x14 => return .ldc2W (← readIndex)
  | 0x84 => return .iinc (← u1) (← s1)
  | 0xa7 => return .goto (← s2)
  | 0xa8 => return .jsr (← s2)
  | 0xa9 => return .ret (← u1)
  | 0xaa => readTableSwitch address
  | 0xab => readLookupSwitch address
  | 0xb2 => return .getstatic (← readIndex)
  | 0xb3 => return .putstatic (← readIndex)
  | 0xb4 => return .getfield (← readIndex)
  | 0xb5 => return .putfield (← readIndex)
  | 0xb6 => return .invokevirtual (← readIndex)
  | 0xb7 => return .invokespecial (← readIndex)
  | 0xb8 => return .invokestatic (← readIndex)
  | 0xb9 =>
    let index ← readIndex
    let count ← u1
    ensure ((← u1) == 0)
    return .invokeinterface index count
  | 0xba =>
    let index ← readIndex
    ensure ((← u2) == 0)
    return .invokedynamic index
  | 0xbb => return .new (← readIndex)
  | 0xbc => return .newarray (← u1)
  | 0xbd => return .anewarray (← readIndex)
  | 0xc0 => return .checkcast (← readIndex)
  | 0xc1 => return .instanceof (← readIndex)
  | 0xc4 => readWide
  | 0xc5 => return .multianewarray (← readIndex) (← u1)
  | 0xc8 => return .gotoW (← s4)
  | 0xc9 => return .jsrW (← s4)
  | _ => failure

/-- Reads what follows an opcode at an address. -/
def readOperands (address opcode : Nat) : Reader Instruction := do
  match Bare.table.ofOpcode? opcode, Access.table.ofOpcode? opcode, Test.table.ofOpcode? opcode with
  | some b, _, _ => return .bare b
  | _, some how, _ => return .access how (← u1)
  | _, _, some test => return .branch test (← s2)
  | none, none, none => readFurther address opcode

end Instruction

/-- Decodes the code from an address on: instructions with their addresses, up to the first bytes that do not form one. -/
def decodeFrom (address : Nat) : List UInt8 → List (Nat × Instruction)
  | [] => []
  | opcode :: rest =>
    match (Instruction.readOperands address opcode.toNat).run rest with
    | none => []
    | some (i, after) =>
      (address, i) ::
        if after.length ≤ rest.length then decodeFrom (address + 1 + (rest.length - after.length)) after else []
termination_by bs => bs.length

/-- Decodes code from its beginning. -/
def decode (code : List UInt8) : List (Nat × Instruction) :=
  decodeFrom 0 code

end ThreeAddress.ClassFile
