import SyntaxDump.Decimal.Rounded

/-!
# Laying out decimal digits

The digits of a decimal number are written either positionally or with an
exponent.  A `Layout` records which of the two is taken and how it looks; the
writer itself is the same for all of them.
-/

namespace SyntaxDump
namespace Decimal

/-- How a number is written. -/
structure Layout where
  /-- the least power of the first digit that is written positionally -/
  plainFrom : Int
  /-- the greatest power of the first digit that is written positionally -/
  plainTo : Int
  /-- does a whole number written positionally end in `.0`? -/
  keepsPoint : Bool
  /-- the least number of digits of an exponent -/
  exponentWidth : Nat

/-- Drop the zeros at the end of a digit string. -/
def dropTrailingZeros (digits : List Char) : List Char :=
  (digits.reverse.dropWhile (· == '0')).reverse

/-- The digits with a point after the first `whole` of them, filled up with
zeros if there are fewer. -/
def Layout.positional (layout : Layout) (digits : List Char) (whole : Nat) : List Char :=
  let before := digits.take whole ++ List.replicate (whole - digits.length) '0'
  match digits.drop whole with
  | [] => if layout.keepsPoint then before ++ ['.', '0'] else before
  | after => before ++ '.' :: after

/-- The sign and the digits of an exponent. -/
def Layout.exponent (layout : Layout) (power : Int) : List Char :=
  let digits := Decimal.digits power.natAbs
  (if power < 0 then '-' else '+') ::
    (List.replicate (layout.exponentWidth - digits.length) '0' ++ digits)

/-- The first digit, the others after a point, and the exponent. -/
def Layout.scientific (layout : Layout) (digits : List Char) (leading : Int) : List Char :=
  let mantissa := match digits with
    | first :: second :: rest => first :: '.' :: second :: rest
    | digits => digits
  mantissa ++ 'e' :: layout.exponent leading

/-- Write a digit string whose first digit counts `10 ^ leading`. -/
def Layout.write (layout : Layout) (digits : List Char) (leading : Int) : List Char :=
  if layout.plainFrom ≤ leading ∧ leading ≤ layout.plainTo then
    match leading with
    | .ofNat power => layout.positional digits (power + 1)
    | .negSucc power => '0' :: '.' :: (List.replicate power '0' ++ digits)
  else layout.scientific digits leading

/-- A minus sign in front of negative numbers. -/
def withSign (negative : Bool) (digits : List Char) : List Char :=
  if negative then '-' :: digits else digits

end Decimal
end SyntaxDump
