import SyntaxDump.Decimal.Layout

/-!
# Literals between tags

Doubles are shown with six significant digits, without trailing zeros, and
with an exponent when they are small or large.
-/

namespace SyntaxDump
namespace Tag

/-- How many digits of a double are shown. -/
def significantDigits : Nat := 6

/-- The digits of a number, filled up with zeros in front. -/
def zeroPadded (width n : Nat) : List Char :=
  let digits := Decimal.digits n
  List.replicate (width - digits.length) '0' ++ digits

/-- A number of units of the last of `places` decimal places. -/
def placesText (places n : Nat) : List Char :=
  let digits := zeroPadded (places + 1) n
  let whole := digits.length - places
  if places = 0 then digits else digits.take whole ++ '.' :: digits.drop whole

/-- Take the zeros behind a point off, and the point as well if it comes last. -/
def stripTrailingZeros (number : List Char) : List Char :=
  if '.' ∈ number then
    ((Decimal.dropTrailingZeros number).reverse.dropWhile (· == '.')).reverse
  else number

/-- The sign of an exponent and two digits of it at least. -/
def exponentDigits (power : Int) : List Char :=
  (if power < 0 then '-' else '+') :: zeroPadded 2 power.natAbs

/-- The text of a finite double that is not zero.  It is rounded to six digits
first, which decides whether there is an exponent.  Without one the double
itself is rounded again, to the decimal places that six digits leave. -/
def generalText (x : Binary64) : List Char :=
  let rounded := Decimal.nearest significantDigits x.scaled Binary64.unit
  if rounded.leading < -4 ∨ Int.ofNat significantDigits ≤ rounded.leading then
    let mantissa := placesText (significantDigits - 1) rounded.coefficient
    stripTrailingZeros (Decimal.withSign x.isNegative mantissa) ++
      'e' :: exponentDigits rounded.leading
  else
    let places := (Int.ofNat (significantDigits - 1) - rounded.leading).toNat
    let units := Binary64.nearestEven (x.scaled * natPow 10 places) Binary64.unit
    stripTrailingZeros (Decimal.withSign x.isNegative (placesText places units))

/-- The text of a double in a dump. -/
def doubleText (x : Binary64) : String :=
  String.ofList <|
    if x.isNaN then Decimal.withSign x.isNegative "nan".toList
    else if x.isInfinite then Decimal.withSign x.isNegative "inf".toList
    else if x.isZero then Decimal.withSign x.isNegative "0".toList
    else generalText x

end Tag
end SyntaxDump
