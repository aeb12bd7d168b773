import ThreeAddress.ClassFile.Error

/-!
# Attributes

An attribute is a name and bytes. The attributes read here are sequences of words: tables of line numbers and of local variables, each a
count and that many entries of one width, and the bootstrap methods, a count and that many entries of different lengths. Beside each
reader stands the writer of its format.
-/

namespace ThreeAddress.ClassFile

structure Attribute where
  /-- The index of the name in the constant pool. -/
  name : Nat
  bytes : List UInt8
  deriving DecidableEq, Inhabited

open Reader in
def Attribute.read : Reader Attribute := do
  return { name := ← u2, bytes := ← Reader.bytes (← u4) }

/-- Bytes taken together two by two. -/
def pairUp : List UInt8 → List Nat
  | a :: b :: rest => (a.toNat * 256 + b.toNat) :: pairUp rest
  | _ => []

/-- The words of an attribute. -/
def words (bytes : List UInt8) : Except ClassError (List Nat) :=
  if bytes.length % 2 = 0 then .ok (pairUp bytes) else .error (.oddLength bytes.length)

/-- The two bytes of a word. -/
def wordBytes (w : Nat) : List UInt8 :=
  [UInt8.ofNat (w / 256), UInt8.ofNat w]

/-- The bytes of words. -/
def encodeWords (ws : List Nat) : List UInt8 :=
  ws.flatMap wordBytes

/-- A list in pieces of `n + 1` elements; a last piece that is too short is left out. -/
def pieces (n : Nat) (ws : List Nat) : List (List Nat) :=
  if ws.length ≤ n then []
  else ws.take (n + 1) :: pieces n (ws.drop (n + 1))
termination_by ws.length
decreasing_by simp only [List.length_drop]; omega

/-- A table: a count and that many entries of `width + 1` words. -/
def table (width : Nat) (bytes : List UInt8) : Except ClassError (List (List Nat)) := do
  match ← words bytes with
  | [] => .error .emptyTable
  | count :: rest =>
    if rest.length = count * (width + 1) then .ok (pieces width rest)
    else .error (.tableSize rest.length count (width + 1))

/-- The bytes of a table. -/
def encodeTable (entries : List (List Nat)) : List UInt8 :=
  encodeWords (entries.length :: entries.flatten)

/-- The offset at which a source line begins. -/
structure LineEntry where
  offset : Nat
  line : Nat
  deriving DecidableEq, Inhabited

/-- A variable of the source: the range of code in which it lives, its name and descriptor in the constant pool, and its slot. -/
structure VariableEntry where
  start : Nat
  length : Nat
  name : Nat
  descriptor : Nat
  slot : Nat
  deriving DecidableEq, Inhabited

/-- A bootstrap method: its method handle and its arguments in the constant pool. -/
structure BootstrapEntry where
  handle : Nat
  args : List Nat
  deriving DecidableEq, Inhabited

namespace LineEntry

def ofWords : List Nat → Option LineEntry
  | [offset, line] => some ⟨offset, line⟩
  | _ => none

def toWords (e : LineEntry) : List Nat :=
  [e.offset, e.line]

/-- Reads a table of line numbers. -/
def readTable (bytes : List UInt8) : Except ClassError (List LineEntry) :=
  (table 1 bytes).map (·.filterMap ofWords)

/-- Writes a table of line numbers. -/
def encodeAll (es : List LineEntry) : List UInt8 :=
  encodeTable (es.map toWords)

end LineEntry

namespace VariableEntry

def ofWords : List Nat → Option VariableEntry
  | [start, length, name, descriptor, slot] => some ⟨start, length, name, descriptor, slot⟩
  | _ => none

def toWords (e : VariableEntry) : List Nat :=
  [e.start, e.length, e.name, e.descriptor, e.slot]

/-- Reads a table of local variables. -/
def readTable (bytes : List UInt8) : Except ClassError (List VariableEntry) :=
  (table 4 bytes).map (·.filterMap ofWords)

/-- Writes a table of local variables. -/
def encodeAll (es : List VariableEntry) : List UInt8 :=
  encodeTable (es.map toWords)

end VariableEntry

namespace BootstrapEntry

/-- Takes `count` bootstrap methods from the front of words; words may be left over. -/
def ofWords : Nat → List Nat → Except ClassError (List BootstrapEntry)
  | 0, _ => .ok []
  | count + 1, handle :: n :: rest =>
    if n ≤ rest.length then do return { handle, args := rest.take n } :: (← ofWords count (rest.drop n))
    else .error .truncatedBootstrap
  | _ + 1, _ => .error .truncatedBootstrap

def toWords (e : BootstrapEntry) : List Nat :=
  e.handle :: e.args.length :: e.args

/-- Reads the bootstrap methods. -/
def readAll (bytes : List UInt8) : Except ClassError (List BootstrapEntry) := do
  match ← words bytes with
  | [] => .error .emptyBootstrap
  | count :: rest => ofWords count rest

/-- Writes the bootstrap methods. -/
def encodeAll (es : List BootstrapEntry) : List UInt8 :=
  encodeWords (es.length :: es.flatMap toWords)

end BootstrapEntry
end ThreeAddress.ClassFile
