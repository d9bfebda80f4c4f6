/-!
# Sets of characters

A set of characters is given by its ranges of code points, both ends included.
-/

namespace Demotion.Text

/-- Whether a character lies in one of the ranges. -/
def inRanges (ranges : List (Nat × Nat)) (c : Char) : Bool :=
  ranges.any fun r => r.1 ≤ c.toNat && c.toNat ≤ r.2

end Demotion.Text
