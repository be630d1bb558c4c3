/-!
# Sets of characters

A property of characters is given by the runs of code points that have it.
-/

namespace SyntaxDump
namespace Text

/-- First and last code point of every run, in increasing order. -/
abbrev Ranges := List (Nat × Nat)

/-- Is the character in one of the runs? -/
def Ranges.has (ranges : Ranges) (c : Char) : Bool :=
  ranges.any fun (first, last) => decide (first ≤ c.toNat) && decide (c.toNat ≤ last)

end Text
end SyntaxDump
