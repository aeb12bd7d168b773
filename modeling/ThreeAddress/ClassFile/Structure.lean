import ThreeAddress.ClassFile.Attribute

/-!
# The structure of a class file

What is read of a class file: its constant pool, its own class, its methods and its attributes. Bytes after its end do not matter.
-/

namespace ThreeAddress.ClassFile

/-- A field or a method: its access flags, its name and descriptor in the constant pool, and its attributes. -/
structure MemberInfo where
  flags : Nat
  name : Nat
  descriptor : Nat
  attributes : List Attribute
  deriving DecidableEq, Inhabited

open Reader in
def MemberInfo.read : Reader MemberInfo := do
  return { flags := ← u2, name := ← u2, descriptor := ← u2, attributes := ← counted Attribute.read }

namespace MemberInfo

/-- A flag is set. -/
def hasFlag (m : MemberInfo) (flag : Nat) : Bool :=
  m.flags &&& flag != 0

def isStatic (m : MemberInfo) : Bool :=
  m.hasFlag 0x0008

/-- The method is native or abstract, and so has no code. -/
def hasNoCode (m : MemberInfo) : Bool :=
  m.hasFlag 0x0100 || m.hasFlag 0x0400

end MemberInfo

structure ClassInfo where
  pool : Array PoolEntry
  /-- The index of the class itself in the constant pool. -/
  thisClass : Nat
  methods : List MemberInfo
  attributes : List Attribute
  deriving DecidableEq, Inhabited

/-- The number with which every class file begins. -/
def magic : Nat := 0xcafebabe

open Reader in
def ClassInfo.read : Reader ClassInfo := do
  let found ← u4
  ensure (found == magic)
  let _minorVersion ← u2
  let _majorVersion ← u2
  let pool ← PoolEntry.readAll
  let _flags ← u2
  let thisClass ← u2
  let _superClass ← u2
  let _interfaces ← counted u2
  let _fields ← counted MemberInfo.read
  let methods ← counted MemberInfo.read
  let attributes ← counted Attribute.read
  return { pool := pool.toArray, thisClass, methods, attributes }

/-- Reads the bytes of a class file. -/
def ClassInfo.ofBytes? (bytes : List UInt8) : Option ClassInfo :=
  (ClassInfo.read.run bytes).map (·.1)

/-- The range of code that a handler protects, in offsets, and the class of the exceptions it catches; 0 catches all. -/
structure HandlerInfo where
  first : Nat
  last : Nat
  handler : Nat
  catchType : Nat
  deriving DecidableEq, Inhabited

open Reader in
def HandlerInfo.read : Reader HandlerInfo := do
  return { first := ← u2, last := ← u2, handler := ← u2, catchType := ← u2 }

/-- The contents of a code attribute. -/
structure CodeInfo where
  maxStack : Nat
  maxLocals : Nat
  code : List UInt8
  handlers : List HandlerInfo
  attributes : List Attribute
  deriving DecidableEq, Inhabited

open Reader in
def CodeInfo.read : Reader CodeInfo := do
  return {
    maxStack := ← u2
    maxLocals := ← u2
    code := ← bytes (← u4)
    handlers := ← counted HandlerInfo.read
    attributes := ← counted Attribute.read }

/-- Reads the bytes of a code attribute; bytes after its end do not matter. -/
def CodeInfo.ofBytes (bytes : List UInt8) : Except ClassError CodeInfo :=
  match CodeInfo.read.run bytes with
  | some (code, _) => .ok code
  | none => .error .truncatedCode

end ThreeAddress.ClassFile
