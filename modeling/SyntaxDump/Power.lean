/-!
# Powers

Words, ranges and decimal places are counted in powers of two and of ten.
-/

namespace SyntaxDump

-- the power of the core library, whatever else has been imported
attribute [local instance (2000)] instPowNat

/-- A power of natural numbers. -/
abbrev natPow (base exponent : Nat) : Nat := base ^ exponent

end SyntaxDump
