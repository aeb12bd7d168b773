/-!
# Shortest decimals

A binary floating-point number is a natural mantissa times a power of two. Every real number of an interval around it rounds to it; the
ends belong to the interval when the mantissa is even. The shortest decimal of the number is the one with the fewest digits in that
interval, and of two such the one nearer to the number; an exact tie goes up. All arithmetic here is on natural numbers, hence exact.
-/

namespace ThreeAddress.Decimal

/-- A layout of binary floating-point numbers: a sign bit, an exponent and a fraction. -/
structure BinaryFormat where
  fractionBits : Nat
  exponentBits : Nat
  deriving DecidableEq, Inhabited

namespace BinaryFormat

def single : BinaryFormat := ⟨23, 8⟩

def double : BinaryFormat := ⟨52, 11⟩

/-- The exponent field of zero and of the numbers with less than full precision is the same as that of the smallest full ones. -/
def minExponent (f : BinaryFormat) : Int :=
  2 - Nat.pow 2 (f.exponentBits - 1) - f.fractionBits

end BinaryFormat

/-- What the bits of a floating-point number stand for. -/
inductive Reading where
  | notANumber
  | infinite (negative : Bool)
  | zero (negative : Bool)
  /-- The number `mantissa · 2 ^ exponent`. The number below it is only half as far away as the one above it if `narrowBelow`. -/
  | finite (negative : Bool) (mantissa : Nat) (exponent : Int) (narrowBelow : Bool)
  deriving DecidableEq, Inhabited

/-- Reads the bits of a number in a format. -/
def BinaryFormat.read (f : BinaryFormat) (bits : Nat) : Reading :=
  let fraction := bits % Nat.pow 2 f.fractionBits
  let exponent := bits / Nat.pow 2 f.fractionBits % Nat.pow 2 f.exponentBits
  let negative := bits / Nat.pow 2 (f.fractionBits + f.exponentBits) % 2 == 1
  if exponent = Nat.pow 2 f.exponentBits - 1 then
    if fraction = 0 then .infinite negative else .notANumber
  else if exponent = 0 then
    if fraction = 0 then .zero negative else .finite negative fraction f.minExponent false
  else .finite negative (Nat.pow 2 f.fractionBits + fraction) (f.minExponent + exponent - 1) (fraction = 0 && 1 < exponent)

/-- An interval of reals around a value, all three over one denominator. -/
structure Span where
  low : Nat
  value : Nat
  high : Nat
  den : Nat
  /-- The ends belong to the interval. -/
  closed : Bool
  deriving DecidableEq, Inhabited

namespace Span

/-- The reals that round to a number: half of the way to the number below and half of the way to the number above. -/
def around (mantissa : Nat) (exponent : Int) (narrowBelow : Bool) : Span :=
  let unit := Nat.pow 2 (exponent - 2).toNat
  { low := (4 * mantissa - if narrowBelow then 1 else 2) * unit
    value := 4 * mantissa * unit
    high := (4 * mantissa + 2) * unit
    den := Nat.pow 2 (2 - exponent).toNat
    closed := mantissa % 2 = 0 }

/-- The same interval in units of `10 ^ place`. -/
def inUnits (s : Span) (place : Int) : Span :=
  let up := Nat.pow 10 (-place).toNat
  { s with low := s.low * up, value := s.value * up, high := s.high * up, den := s.den * Nat.pow 10 place.toNat }

/-- The interval holds the natural number. -/
def holds (s : Span) (n : Nat) : Bool :=
  if s.closed then s.low ≤ n * s.den && n * s.den ≤ s.high else s.low < n * s.den && n * s.den < s.high

/-- The nearest natural number to the value among those of its two neighbours that the interval holds; a tie goes up. -/
def nearest? (s : Span) : Option Nat :=
  let below := s.value / s.den
  match s.holds below, s.holds (below + 1) with
  | true, true => some (if s.value - below * s.den < (below + 1) * s.den - s.value then below else below + 1)
  | true, false => some below
  | false, true => some (below + 1)
  | false, false => none

end Span

/-- The decimal digits of a natural number, the most significant first. -/
def digits (n : Nat) : List Char :=
  Nat.toDigits 10 n

/-- The least `k` up to the bound with `den ≤ num · 10 ^ k`. -/
def zerosBefore (num den : Nat) : Nat → Nat
  | 0 => 0
  | bound + 1 => if den ≤ num then 0 else zerosBefore (num * 10) den bound + 1

/-- The place of the leading digit of a positive fraction: the greatest `p` with `10 ^ p ≤ num / den`. -/
def leadingPlace (num den : Nat) : Int :=
  if den ≤ num then (digits (num / den)).length - 1
  else -(zerosBefore num den (digits den).length : Nat)

/-- Seventeen digits tell any two numbers of either format apart. -/
def maxDigits : Nat := 17

/-- The decimal number `coefficient · 10 ^ place`. -/
structure Scaled where
  coefficient : Nat
  place : Int
  deriving DecidableEq, Inhabited

/-- The shortest decimal of an interval: the first grid, from the coarsest on, on which the interval holds a neighbour of its value. -/
def Span.shortest (s : Span) : Scaled :=
  let lead := leadingPlace s.value s.den
  let grid (k : Nat) : Option Scaled := (s.inUnits (lead - k)).nearest?.map (⟨·, lead - k⟩)
  ((List.range maxDigits).findSome? grid).getD ⟨(s.inUnits (lead - maxDigits)).value / (s.inUnits (lead - maxDigits)).den, lead - maxDigits⟩

end ThreeAddress.Decimal
