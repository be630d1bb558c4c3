import SyntaxDump.Power

/-!
# Double precision numbers as bit patterns

A double is its 64 bit word.  A finite double has the magnitude
`significand * 2 ^ scale / 2 ^ 1074`, so every computation below is one on
natural numbers: an exact quotient is formed first and rounded once, to the
nearest double and on a tie to the one with the even significand.
-/

namespace SyntaxDump

/-- A double precision number, given by its bits. -/
structure Binary64 where
  bits : UInt64
deriving DecidableEq, Repr, Inhabited

namespace Binary64

/-! ## Fields of the word -/

/-- The bits as a natural number. -/
def word (x : Binary64) : Nat := x.bits.toNat

/-- Is the sign bit set? -/
def isNegative (x : Binary64) : Bool := decide (natPow 2 63 ≤ x.word)

/-- The eleven exponent bits. -/
def exponentField (x : Binary64) : Nat := x.word / natPow 2 52 % natPow 2 11

/-- The fifty-two fraction bits. -/
def fractionField (x : Binary64) : Nat := x.word % natPow 2 52

def isFinite (x : Binary64) : Bool := x.exponentField != 2047

def isNaN (x : Binary64) : Bool := !x.isFinite && x.fractionField != 0

def isInfinite (x : Binary64) : Bool := !x.isFinite && x.fractionField == 0

/-- Both zeros, whatever their sign. -/
def isZero (x : Binary64) : Bool := x.word % natPow 2 63 == 0

/-- The integer significand of a finite double; the leading bit is implicit
unless the exponent field is zero. -/
def significand (x : Binary64) : Nat :=
  if x.exponentField = 0 then x.fractionField else natPow 2 52 + x.fractionField

/-- The binary exponent of a finite double above the least one, `-1074`. -/
def scale (x : Binary64) : Nat := x.exponentField - 1

/-- The magnitude of a finite double in units of `2 ^ (-1074)`. -/
def scaled (x : Binary64) : Nat := x.significand * natPow 2 x.scale

/-- The number of least units in one. -/
def unit : Nat := natPow 2 1074

/-! ## Special values -/

def ofWord (word : Nat) : Binary64 := ⟨UInt64.ofNat word⟩

/-- The word of the positive infinity: all larger words are no numbers. -/
def infinityWord : Nat := 2047 * natPow 2 52

def zero : Binary64 := ofWord 0

def infinity : Binary64 := ofWord infinityWord

/-- The quiet positive value that is no number. -/
def nan : Binary64 := ofWord (infinityWord + natPow 2 51)

/-- Flip the sign bit. -/
def neg (x : Binary64) : Binary64 := ⟨x.bits ^^^ 0x8000000000000000⟩

/-- Put a minus sign on a number if asked to. -/
def signed (negative : Bool) (x : Binary64) : Binary64 :=
  if negative then x.neg else x

/-! ## Rounding -/

/-- The natural number nearest to `num / den`; of two equally near ones the
even one. -/
def nearestEven (num den : Nat) : Nat :=
  let quotient := num / den
  let twice := 2 * (num % den)
  if twice < den then quotient
  else if den < twice then quotient + 1
  else quotient + quotient % 2

/-- The non-negative double nearest to `num / den`, ties to even.  The unit of
the last place is chosen so that the significand has fifty-three bits, but
never below the least unit; a carry out of the significand runs into the
exponent field, and from there into infinity. -/
def ofRatio (num den : Nat) : Binary64 :=
  let shift := (num * unit / den).log2 - 52
  let significand := nearestEven (num * unit) (den * natPow 2 shift)
  ofWord (min (shift * natPow 2 52 + significand) infinityWord)

/-- The double nearest to a natural number. -/
def ofNat (n : Nat) : Binary64 := ofRatio n 1

/-- The double nearest to an integer. -/
def ofInt (i : Int) : Binary64 := signed (decide (i < 0)) (ofNat i.natAbs)

/-- The double nearest to a power of ten. -/
def tenPow (k : Nat) : Binary64 := ofNat (natPow 10 k)

/-- Product of two finite non-negative doubles. -/
def mul (x y : Binary64) : Binary64 := ofRatio (x.scaled * y.scaled) (unit * unit)

/-- Quotient of two finite non-negative doubles, the second one positive. -/
def div (x y : Binary64) : Binary64 := ofRatio x.scaled y.scaled

/-! ## Comparison -/

/-- Numerical equality: no value that is no number equals anything, and the two
zeros are equal. -/
def numEq (x y : Binary64) : Bool :=
  !x.isNaN && !y.isNaN && (x.bits == y.bits || (x.isZero && y.isZero))

/-- The natural number nearest to a double, a half rounded up, negative values
and values that are no number sent to zero and large ones to `limit`. -/
def toNatClamped (limit : Nat) (x : Binary64) : Nat :=
  if x.isNaN || x.isNegative then 0
  else if x.isInfinite then limit
  else min ((2 * x.scaled + unit) / (2 * unit)) limit

end Binary64
end SyntaxDump
