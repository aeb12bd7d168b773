/-!
# Reading bytes

A reader takes what it reads from the front of a list of bytes and leaves the rest, or fails if the bytes are not what it reads. Numbers
are big-endian.
-/

namespace ThreeAddress.ClassFile

abbrev Reader := StateT (List UInt8) Option

namespace Reader

/-- One byte. -/
def u1 : Reader UInt8 := fun
  | [] => none
  | b :: rest => some (b, rest)

/-- An unsigned number of `n` bytes. -/
def unsigned : Nat → Reader Nat
  | 0 => return 0
  | n + 1 => do
    let high ← u1
    let low ← unsigned n
    return high.toNat * 256 ^ n + low

/-- An unsigned number of two bytes. -/
def u2 : Reader Nat :=
  unsigned 2

/-- An unsigned number of four bytes. -/
def u4 : Reader Nat :=
  unsigned 4

/-- A signed number of one byte. -/
def s1 : Reader Int8 := do
  return Int8.ofInt (← unsigned 1)

/-- A signed number of two bytes. -/
def s2 : Reader Int16 := do
  return Int16.ofInt (← u2)

/-- A signed number of four bytes. -/
def s4 : Reader Int32 := do
  return Int32.ofInt (← u4)

/-- The next `n` bytes. -/
def bytes (n : Nat) : Reader (List UInt8) := fun bs =>
  if bs.length < n then none else some (bs.take n, bs.drop n)

/-- What one reader reads, `n` times. -/
def many {α : Type} (r : Reader α) : Nat → Reader (List α)
  | 0 => return []
  | n + 1 => do
    let a ← r
    return a :: (← many r n)

/-- A count of two bytes and what one reader reads, that many times. -/
def counted {α : Type} (r : Reader α) : Reader (List α) := do
  many r (← u2)

/-- Goes on only if the condition holds. -/
def ensure (p : Bool) : Reader Unit :=
  if p then pure () else failure

end Reader
end ThreeAddress.ClassFile
