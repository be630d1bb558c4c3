import SyntaxDump.Toml.Text
import SyntaxDump.Toml.Value

/-!
# Numbers of TOML

Underscores may stand between digits.  A whole number in base ten has no
leading zero; other bases have a mark and no sign.  A number with a fraction or
an exponent is the double nearest to it.
-/

namespace SyntaxDump
namespace Toml

/-! ## Digits -/

/-- The digits at the front of a text, without the underscores that stand in
front of a digit. -/
def spanDigits (accept : Char → Bool) : List Char → List Char × List Char
  | [] => ([], [])
  | c :: rest =>
      if accept c then
        let (digits, left) := spanDigits accept rest
        (c :: digits, left)
      else if c = '_' ∧ rest.head?.any accept then spanDigits accept rest
      else ([], c :: rest)

/-- Digits of which there must be at least one. -/
def readDigits (accept : Char → Bool) (cs : List Char) : Option (List Char × List Char) :=
  if cs.head?.any accept then some (spanDigits accept cs) else none

/-- Is the number negative, and what follows its sign. -/
def readSign : List Char → Bool × List Char
  | '-' :: rest => (true, rest)
  | '+' :: rest => (false, rest)
  | cs => (false, cs)

/-- The digits before a point: a single zero, or digits that do not start with
one. -/
def readWhole : Reader (List Char)
  | '0' :: rest => some (['0'], rest)
  | cs => readDigits Decimal.isDigit cs

/-! ## Whole numbers -/

/-- A whole number that fits into 64 bits with a sign. -/
def integer? (i : Int) : Option Value :=
  if -(natPow 2 63 : Int) ≤ i ∧ i < natPow 2 63 then some (.integer i) else none

/-- A whole number in a base other than ten, behind its mark. -/
def readBased (base : Nat) (cs : List Char) : Option (Value × List Char) := do
  let value (c : Char) : Nat := (Json.hexValue? c).getD base
  let (digits, rest) ← readDigits (fun c => decide (value c < base)) cs
  let number ← integer? (digits.foldl (fun n c => base * n + value c) 0 : Nat)
  return (number, rest)

/-! ## Doubles -/

/-- The power of the first digit from which on every number is infinite, and
below whose negative every number is zero. -/
def powerLimit : Nat := 400

/-- The double nearest to `digits * 10 ^ power`. -/
def nearest (digits : List Char) (power : Int) : Binary64 :=
  let significand := Decimal.valueOf digits
  let leading := power + Decimal.digitCount significand
  if significand = 0 ∨ leading < -powerLimit then Binary64.zero
  else if powerLimit < leading then Binary64.infinity
  else Binary64.ofRatio (significand * natPow 10 power.toNat) (natPow 10 (-power).toNat)

/-- The digits behind a point, if there is one. -/
def readFraction : Reader (Option (List Char))
  | '.' :: rest => (readDigits Decimal.isDigit rest).map fun (digits, rest) => (some digits, rest)
  | cs => some (none, cs)

/-- The exponent, if there is one. -/
def readExponent : Reader (Option Int)
  | [] => some (none, [])
  | c :: rest =>
      if c = 'e' ∨ c = 'E' then
        let (negative, rest) := readSign rest
        (readDigits Decimal.isDigit rest).map fun (digits, rest) =>
          let power : Int := Decimal.valueOf digits
          (some (if negative then -power else power), rest)
      else some (none, c :: rest)

/-- A number in base ten.  A positive number that is too large for a double is
an error. -/
def readDecimal (cs : List Char) : Option (Value × List Char) := do
  let (negative, cs) := readSign cs
  let (whole, cs) ← readWhole cs
  let (fraction, cs) ← readFraction cs
  let (exponent, cs) ← readExponent cs
  if fraction.isNone && exponent.isNone then
    let magnitude : Int := Decimal.valueOf whole
    let number ← integer? (if negative then -magnitude else magnitude)
    return (number, cs)
  else
    let places := fraction.getD []
    let magnitude := nearest (whole ++ places) (exponent.getD 0 - places.length)
    if magnitude.isInfinite && !negative then none
    else return (.float (Binary64.signed negative magnitude), cs)

/-- Infinity, or what is no number, with an optional sign. -/
def readSpecial (cs : List Char) : Option (Value × List Char) :=
  let (negative, cs) := readSign cs
  match ['i', 'n', 'f'].isPrefixOf? cs, ['n', 'a', 'n'].isPrefixOf? cs with
  | some rest, _ => some (.float (Binary64.signed negative Binary64.infinity), rest)
  | none, some rest => some (.float (Binary64.signed negative Binary64.nan), rest)
  | none, none => none

def readNumber (cs : List Char) : Option (Value × List Char) :=
  match cs with
  | '0' :: 'x' :: rest => readBased 16 rest
  | '0' :: 'o' :: rest => readBased 8 rest
  | '0' :: 'b' :: rest => readBased 2 rest
  | _ => (readSpecial cs).or (readDecimal cs)

end Toml
end SyntaxDump
