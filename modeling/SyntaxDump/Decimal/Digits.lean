import SyntaxDump.Power

/-!
# Decimal digits of natural numbers

Reading and writing of natural numbers and integers in canonical decimal form:
no leading zero, and a minus sign in front of a negative integer.
-/

namespace SyntaxDump
namespace Decimal

/-- The character of a decimal digit. -/
def digitChar (d : Nat) : Char := Char.ofNat ('0'.toNat + d)

/-- Is the character one of the ten ASCII digits? -/
def isDigit (c : Char) : Bool := decide ('0' ≤ c) && decide (c ≤ '9')

/-- The value of a digit character. -/
def digitValue (c : Char) : Nat := c.toNat - '0'.toNat

/-- The digits of `n`, most significant first; zero has the one digit `0`. -/
def digits (n : Nat) : List Char :=
  if n < 10 then [digitChar n] else digits (n / 10) ++ [digitChar (n % 10)]
termination_by n
decreasing_by omega

/-- How many digits `n` has. -/
def digitCount (n : Nat) : Nat := if n < 10 then 1 else digitCount (n / 10) + 1
termination_by n
decreasing_by omega

/-- Digits of an integer with a minus sign in front of a negative one. -/
def integerDigits : Int → List Char
  | .ofNat n => digits n
  | .negSucc n => '-' :: digits (n + 1)

/-- The number that a list of digit characters denotes. -/
def valueOf (cs : List Char) : Nat := cs.foldl (fun n c => 10 * n + digitValue c) 0

def natText (n : Nat) : String := String.ofList (digits n)

def integerText (i : Int) : String := String.ofList (integerDigits i)

/-- A natural number below `2 ^ 64` in decimal, with an optional plus sign and
any number of leading zeros. -/
def readWord? (text : String) : Option Nat :=
  let cs := match text.toList with
    | '+' :: rest => rest
    | cs => cs
  if !cs.isEmpty && cs.all isDigit && decide (valueOf cs < natPow 2 64) then
    some (valueOf cs)
  else none

end Decimal
end SyntaxDump
