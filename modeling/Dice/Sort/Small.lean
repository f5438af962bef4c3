/-!
# Sorting few elements

A list is sorted by a test that says whether one element comes before another, which is called as
seldom as possible. Few elements are put one after another in their place. A few more are sorted in
two halves, which are then merged from both ends at once. When the two ends do not meet, the test
contradicts itself, and the sort breaks off.
-/

namespace Dice.Sort

variable {α : Type} (before : α → α → Bool)

/-- Puts an element in its place among others already in order, which are given from the last one
back. -/
def insert (x : α) : List α → List α
  | [] => [x]
  | y :: ys => if before x y then y :: insert x ys else x :: y :: ys

/-- Puts elements one after another in their place behind others already in order. -/
def insertAll (sorted xs : List α) : List α :=
  (xs.foldl (fun ys x => insert before x ys) sorted.reverse).reverse

/-- Four elements in order, after five comparisons. -/
def four : List α → List α
  | [w, x, y, z] =>
    let (a, b) := if before x w then (x, w) else (w, x)
    let (c, d) := if before z y then (z, y) else (y, z)
    let caFirst := before c a
    let dbFirst := before d b
    let least := if caFirst then c else a
    let greatest := if dbFirst then b else d
    let left := if caFirst then a else if dbFirst then c else b
    let right := if dbFirst then d else if caFirst then b else c
    let (low, high) := if before right left then (right, left) else (left, right)
    [least, low, high, greatest]
  | xs => xs

/-- The first `n` elements that two lists come to when they are merged, each with whether it is one
of the first list. A test says whether the first list goes first. -/
def front (leftFirst : α → α → Bool) : (n : Nat) → List α → List α → List (Bool × α)
  | n + 1, x :: xs, y :: ys =>
    if leftFirst x y then (true, x) :: front leftFirst n xs (y :: ys)
    else (false, y) :: front leftFirst n (x :: xs) ys
  | _, _, _ => []

/-- How many of some elements are of the first list. -/
def lefts (zs : List (Bool × α)) : Nat :=
  zs.countP (·.1)

/-- What two halves come to when they are merged from the front, as many elements as the first half
has. -/
def lowEnd (xs ys : List α) : List (Bool × α) :=
  front (fun x y => !before y x) xs.length xs ys

/-- What two halves come to when they are merged from the back, the last element first. -/
def highEnd (xs ys : List α) : List (Bool × α) :=
  front (fun x y => before y x) xs.length xs.reverse ys.reverse

/-- Merges two halves in order, the second of which may have one element more, from both ends at
once. There is no result where the two ends do not meet, as some elements would then be lost and
others doubled. -/
def meet (xs ys : List α) : Option (List α) :=
  let n := xs.length
  let low := lowEnd before xs ys
  let high := highEnd before xs ys
  let odd := ys.length - n
  if lefts low + lefts high = n then
    some (low.map (·.2) ++ (ys.drop (n - lefts low)).take odd ++ (high.map (·.2)).reverse)
  else if lefts low + lefts high + odd = n then
    some (low.map (·.2) ++ (xs.drop (lefts low)).take odd ++ (high.map (·.2)).reverse)
  else none

/-- Sorts one half of `n` elements: the first eight of it, or the first four, in a way of their own,
and the others by putting them in their place. -/
def half (n : Nat) (xs : List α) : Option (List α) :=
  if 16 ≤ n then
    (meet before (four before (xs.take 4)) (four before ((xs.drop 4).take 4))).map
      fun eight => insertAll before eight (xs.drop 8)
  else if 8 ≤ n then some (insertAll before (four before (xs.take 4)) (xs.drop 4))
  else some (insertAll before [] xs)

/-- Sorts a small number of elements in two halves. -/
def small (xs : List α) : Option (List α) :=
  let n := xs.length
  if n < 2 then some xs
  else do
    let left ← half before n (xs.take (n / 2))
    let right ← half before n (xs.drop (n / 2))
    meet before left right

end Dice.Sort
