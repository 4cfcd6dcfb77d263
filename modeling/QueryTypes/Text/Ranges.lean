/-!
# Ranges of code points

A property of characters as the closed ranges of the code points that have it, in ascending order
and apart from each other.
-/

namespace QueryTypes.Text

/-- Closed ranges of code points. -/
abbrev Ranges := List (Nat × Nat)

namespace Ranges

/-- Whether a character lies in one of the ranges. -/
def contains (ranges : Ranges) (c : Char) : Bool :=
  ranges.any fun r => decide (r.1 ≤ c.toNat ∧ c.toNat ≤ r.2)

end Ranges
end QueryTypes.Text
