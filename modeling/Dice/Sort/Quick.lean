import Dice.Sort.Small

/-!
# Sorting by a pivot

The elements that come before a pivot are sorted apart from the others. The pivot is a median of
elements from all over the list. Where nothing comes before it, the elements up to it are all equal
and need no sorting, and so they are where it is equal to an earlier pivot that the list begins
with.
-/

namespace Dice.Sort

variable {α : Type} (before : α → α → Bool)

/-- The greatest number of elements that are sorted as few. -/
def fewest : Nat := 32

/-- The median of three elements. -/
def median (a b c : α) : α :=
  let first := before a b
  if first == before a c then
    if before b c == first then b else c
  else a

/-- The median of the elements at three places. Where many elements lie from each place to the
next, the medians of three elements among them stand for the three. -/
def medianAt (get : Nat → α) (n a b c : Nat) : α :=
  if _h : 8 ≤ n then
    let medianFrom (i : Nat) : α := medianAt get (n / 8) i (i + n / 8 * 4) (i + n / 8 * 7)
    median before (medianFrom a) (medianFrom b) (medianFrom c)
  else median before (get a) (get b) (get c)
termination_by n

/-- The element by which the others are divided. -/
def pivot? (xs : List α) : Option α :=
  let n := xs.length / 8
  xs.head?.map fun x => medianAt before (fun i => xs.getD i x) n 0 (n * 4) (n * 7)

/-- Sorts elements by pivots, as far as a limit of their number goes, and else in another way. The
elements do not come before `bound?`, where that is given. -/
def quick (otherwise : List α → Option (List α)) :
    (limit : Nat) → (bound? : Option α) → List α → Option (List α)
  | 0, _, xs => if xs.length ≤ fewest then small before xs else otherwise xs
  | limit + 1, bound?, xs =>
    if xs.length ≤ fewest then small before xs
    else do
      let p ← pivot? before xs
      let lesser := xs.filter fun x => before x p
      if bound?.any (fun b => !before b p) || lesser.isEmpty then
        let greater ← quick otherwise limit none (xs.filter fun x => before p x)
        return xs.filter (fun x => !before p x) ++ greater
      else
        let others ← quick otherwise limit (some p) (xs.filter fun x => !before x p)
        let lesser ← quick otherwise limit bound? lesser
        return lesser ++ others

end Dice.Sort
