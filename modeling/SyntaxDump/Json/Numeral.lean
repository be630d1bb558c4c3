import SyntaxDump.Decimal.Digits
import SyntaxDump.Json.Value

/-!
# The value of a numeral

A numeral is the digits of a number as they stand in a text.  One without
fraction and exponent is a whole number as long as it fits into 64 bits.  All
others are doubles: the digits are gathered into a 64 bit significand, digits
beyond it are dropped, and the significand is scaled by a power of ten.
-/

namespace SyntaxDump
namespace Json

/-- The parts of a number in a text. -/
structure Numeral where
  negative : Bool
  whole : List Char
  /-- the digits after the point, if there is one -/
  fraction : Option (List Char)
  /-- is the exponent negative, and its digits -/
  exponent : Option (Bool × List Char)
deriving DecidableEq, Repr

/-- Append digits to a significand as long as it stays below `2 ^ 64`; the
second component counts the digits that were taken. -/
def gather (significand : Nat) : List Char → Nat × Nat
  | [] => (significand, 0)
  | c :: rest =>
      let next := 10 * significand + Decimal.digitValue c
      if next < natPow 2 64 then
        let (significand, taken) := gather next rest
        (significand, taken + 1)
      else (significand, 0)

/-- The value of the digits of an exponent below `2 ^ 31`; otherwise how many
digits follow the one that went too far. -/
def exponentValue (value : Nat) : List Char → Except Nat Nat
  | [] => .ok value
  | c :: rest =>
      let next := 10 * value + Decimal.digitValue c
      if next < natPow 2 31 then exponentValue next rest else .error rest.length

/-- The greatest power of ten that a single step scales by. -/
def maxTenPow : Nat := 308

/-- Divide by `10 ^ power` in steps of `10 ^ 308` at most. -/
def divideByTenPow (x : Binary64) (power : Nat) : Binary64 :=
  if power ≤ maxTenPow then x.div (Binary64.tenPow power)
  else if x.isZero then x
  else divideByTenPow (x.div (Binary64.tenPow maxTenPow)) (power - maxTenPow)
termination_by power
decreasing_by simp only [maxTenPow] at *; omega

/-- Scale by a power of ten; there is no result if it is infinite. -/
def scaleByTenPow? (x : Binary64) : Int → Option Binary64
  | .ofNat power =>
      if power ≤ maxTenPow then
        let product := x.mul (Binary64.tenPow power)
        if product.isInfinite then none else some product
      else if x.isZero then some x
      else none
  | .negSucc power => some (divideByTenPow x (power + 1))

/-- Keep an exponent within 32 bits. -/
def clampExponent (exponent : Int) : Int :=
  max (-(natPow 2 31 : Int)) (min (natPow 2 31 - 1) exponent)

namespace Numeral

/-- The signed whole number `n`, if it fits into 64 bits; minus zero does not
count as one. -/
def wholeValue (numeral : Numeral) (n : Nat) : Value :=
  if numeral.negative then
    if n = 0 ∨ natPow 2 63 < n then .float (Binary64.ofNat n).neg else .integer (-n)
  else .integer n

/-- The double `significand * 10 ^ exponent` with the sign of the numeral, or
the number of unread digits if it is out of range. -/
def scaledValue (numeral : Numeral) (significand : Nat) (exponent : Int) : Except Nat Value :=
  match scaleByTenPow? (Binary64.ofNat significand) exponent with
  | some x => .ok (.float (Binary64.signed numeral.negative x))
  | none => .error 0

/-- The value of a numeral.  If it is out of range, the number of digits that
were left unread when this showed. -/
def value (numeral : Numeral) : Except Nat Value :=
  let (significand, taken) := gather 0 numeral.whole
  let dropped := numeral.whole.length - taken
  if numeral.fraction.isNone && numeral.exponent.isNone && dropped == 0 then
    .ok (numeral.wholeValue significand)
  else
    let (significand, places) := gather significand (numeral.fraction.getD [])
    let start : Int := dropped - places
    match numeral.exponent with
    | none => numeral.scaledValue significand start
    | some (negative, digits) =>
        match exponentValue 0 digits with
        | .ok exponent =>
            numeral.scaledValue significand
              (clampExponent (if negative then start - exponent else start + exponent))
        | .error unread =>
            if significand = 0 ∨ negative then
              .ok (.float (Binary64.signed numeral.negative Binary64.zero))
            else .error unread

end Numeral
end Json
end SyntaxDump
