/-!
# Sets of characters as ranges

A set of code points is a list of ranges in ascending order, each with its first and last member.
-/

namespace Dice.Text

/-- Whether a code point lies in one of the ranges. The search ends at the first range that
starts beyond it. -/
def inRanges (n : Nat) : List (Nat × Nat) → Bool
  | [] => false
  | (first, last) :: rest => first ≤ n && (n ≤ last || inRanges n rest)

end Dice.Text
