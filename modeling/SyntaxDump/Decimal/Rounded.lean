import SyntaxDump.Binary64
import SyntaxDump.Decimal.Digits

/-!
# Decimal approximations of a positive ratio

A decimal approximation is a digit string read as a number `coefficient` and
the power of ten `leading` of its first digit.  Two of them are of interest
for a double: the nearest one with a given number of digits, and the shortest
one that still identifies the double.
-/

namespace SyntaxDump
namespace Decimal

/-- `d.ddd * 10 ^ leading`, where `coefficient` has the digits `dddd`. -/
structure Scientific where
  coefficient : Nat
  leading : Int
deriving DecidableEq, Repr

/-- The power of ten of the first digit of `num / den`, both positive. -/
def leadingPower (num den : Nat) : Int :=
  if den ≤ num then Int.ofNat (digitCount (num / den)) - 1
  else -Int.ofNat (digitCount ((den + num - 1) / num - 1))

/-- The ratio `num / den` divided by `10 ^ power`, again as a ratio. -/
def overTenPow (num den : Nat) : Int → Nat × Nat
  | .ofNat power => (num, den * natPow 10 power)
  | .negSucc power => (num * natPow 10 (power + 1), den)

/-! ## A fixed number of digits -/

/-- The nearest decimal with `count` digits, ties to the even coefficient.  A
coefficient that rounds up to the next power of ten moves the first digit. -/
def nearest (count num den : Nat) : Scientific :=
  let leading := leadingPower num den
  let (num, den) := overTenPow num den (leading - (Int.ofNat count - 1))
  let coefficient := Binary64.nearestEven num den
  if coefficient < natPow 10 count then ⟨coefficient, leading⟩
  else ⟨coefficient / 10, leading + 1⟩

/-! ## The fewest digits -/

/-- An interval of magnitudes, its ends in quarters of the least unit. -/
structure Interval where
  low : Nat
  high : Nat
  closed : Bool

/-- The magnitudes that round to the positive double `x`.  They reach half way
to the neighbours, of which the lower one is twice as near if `x` is a power
of two; the ends round to `x` if its significand is even. -/
def roundingInterval (x : Binary64) : Interval where
  low :=
    if x.fractionField = 0 ∧ 1 < x.exponentField then (4 * x.significand - 1) * natPow 2 x.scale
    else (4 * x.significand - 2) * natPow 2 x.scale
  high := (4 * x.significand + 2) * natPow 2 x.scale
  closed := x.significand % 2 == 0

/-- Does the magnitude of `num / den` least units lie in the interval? -/
def Interval.contains (interval : Interval) (num den : Nat) : Bool :=
  let value := 4 * num
  let low := interval.low * den
  let high := interval.high * den
  if interval.closed then decide (low ≤ value) && decide (value ≤ high)
  else decide (low < value) && decide (value < high)

/-- Of the two multiples of the grid step around `x`, the one that rounds to
`x`; if both do, the nearer one, and on a tie the even one.  The grid step is
`10 ^ power`. -/
def gridHit? (x : Binary64) (power : Int) : Option Nat :=
  let interval := roundingInterval x
  let (num, den) := overTenPow x.scaled Binary64.unit power
  let below := num / den
  let inside (k : Nat) : Bool :=
    match power with
    | .ofNat p => interval.contains (k * natPow 10 p * Binary64.unit) 1
    | .negSucc p => interval.contains (k * Binary64.unit) (natPow 10 (p + 1))
  match inside below, inside (below + 1) with
  | true, true => some (Binary64.nearestEven num den)
  | true, false => some below
  | false, true => some (below + 1)
  | false, false => none

/-- Try grids with more and more digits, starting at `count`. -/
def shortestFrom (x : Binary64) (leading : Int) : (attempts count : Nat) → Scientific
  | 0, _ => ⟨0, 0⟩
  | attempts + 1, count =>
      match gridHit? x (leading - (Int.ofNat count - 1)) with
      | some coefficient =>
          if coefficient < natPow 10 count then ⟨coefficient, leading⟩
          else ⟨coefficient / 10, leading + 1⟩
      | none => shortestFrom x leading attempts (count + 1)

/-- The shortest decimal that rounds to the positive finite double `x`, and the
nearest to it among those; seventeen digits always suffice. -/
def shortest (x : Binary64) : Scientific :=
  shortestFrom x (leadingPower x.scaled Binary64.unit) 17 1

end Decimal
end SyntaxDump
