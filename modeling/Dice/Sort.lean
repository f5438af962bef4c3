import Dice.Sort.Runs

/-!
# Sorting

The stable sort for totals. Elements that are equal stay in the order they came in. There is a
result whenever the test puts the elements in tiers; else the sort may break off.
-/

namespace Dice.Sort

variable {α : Type} (before : α → α → Bool)

/-- How many elements of a list may be sorted by a pivot, which takes as much room beside it. -/
def roomFor (n : Nat) : Nat :=
  max (max (n - n / 2) (min n 500000)) 48

/-- Sorts elements in runs that are put in order at once. -/
def eagerly (room : Nat) (xs : List α) : Option (List α) :=
  sortRuns before some room true xs

/-- Sorts elements by pivots, twice as many as the bits of their number before it takes another
way. -/
def quickly (room : Nat) (xs : List α) : Option (List α) :=
  quick before (eagerly before room) (2 * xs.length.log2) none xs

/-- Sorts a list by a test whether one element comes before another. There is no result where the
sort finds that the test contradicts itself. -/
def sort? (xs : List α) : Option (List α) :=
  let n := xs.length
  if n ≤ 20 then some (insertAll before [] xs)
  else sortRuns before (quickly before (roomFor n)) (roomFor n) (n ≤ 2 * fewest) xs

end Dice.Sort
