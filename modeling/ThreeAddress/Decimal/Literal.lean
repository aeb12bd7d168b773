import ThreeAddress.Decimal.Shortest

/-!
# Floating-point literals

The text of a floating-point number: the digits of its shortest decimal, laid out as one record says. A number whose leading digit
stands between two places is written positionally with at least one digit after the point; every other number as digits and a power
of ten.
-/

namespace ThreeAddress.Decimal

/-- How the digits of a number are laid out. -/
structure Style where
  /-- The least place of a leading digit that is written positionally. -/
  minPlace : Int
  /-- The first place above those that are written positionally. -/
  endPlace : Int
  /-- What stands between the digits and the power of ten. -/
  exponentMark : String
  notANumber : String
  infinity : String
  deriving DecidableEq, Inhabited

/-- Numbers from a ten-thousandth up to 10 to the power 16 are written positionally. -/
def Style.literal : Style :=
  { minPlace := -4, endPlace := 16, exponentMark := "e", notANumber := "NaN", infinity := "inf" }

/-- Digits without the zeros at their end. -/
def trimZeros (ds : List Char) : List Char :=
  (ds.reverse.dropWhile (· = '0')).reverse

/-- Digits with a point before them, inside them or behind them; at least one digit stands on each side of the point. -/
def positional (ds : List Char) (lead : Int) : List Char :=
  if lead < 0 then ['0', '.'] ++ List.replicate (-lead - 1).toNat '0' ++ ds
  else
    let whole := lead.toNat + 1
    let fraction := ds.drop whole
    (ds ++ List.replicate (whole - ds.length) '0').take whole ++ '.' :: if fraction.isEmpty then ['0'] else fraction

/-- Digits with a point behind the first one, and the power of ten. -/
def scientific (mark : String) (ds : List Char) (lead : Int) : List Char :=
  let fraction := ds.drop 1
  ds.take 1 ++ (if fraction.isEmpty then [] else '.' :: fraction) ++ mark.toList ++ (toString lead).toList

/-- The text of a positive decimal. -/
def Style.layout (style : Style) (d : Scaled) : List Char :=
  let all := digits d.coefficient
  let lead := d.place + all.length - 1
  let ds := trimZeros all
  if style.minPlace ≤ lead && lead < style.endPlace then positional ds lead else scientific style.exponentMark ds lead

/-- The text of the number with the given bits. -/
def Style.text (style : Style) (format : BinaryFormat) (bits : Nat) : String :=
  let signed (negative : Bool) (s : String) : String := if negative then "-" ++ s else s
  match format.read bits with
  | .notANumber => style.notANumber
  | .infinite negative => signed negative style.infinity
  | .zero negative => signed negative "0.0"
  | .finite negative mantissa exponent narrowBelow =>
    signed negative (String.ofList (style.layout (Span.around mantissa exponent narrowBelow).shortest))

/-- The text of a single-precision number. -/
def singleText (bits : UInt32) : String :=
  Style.literal.text .single bits.toNat

/-- The text of a double-precision number. -/
def doubleText (bits : UInt64) : String :=
  Style.literal.text .double bits.toNat

end ThreeAddress.Decimal
