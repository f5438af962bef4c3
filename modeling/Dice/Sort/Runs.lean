import Dice.Sort.Quick

/-!
# Sorting by runs

A list is cut into runs. Elements that lie in order already make a run if there are enough of them;
else a run is sorted at once, or stays as it is until it is merged with one in order. Runs are
merged with their neighbours, those first that are deep in a balanced tree over the whole list.
-/

namespace Dice.Sort

variable {α : Type} (before : α → α → Bool)

/-- Neighbouring elements of a list, and whether they are in order. -/
structure Run (α : Type) where
  elements : List α
  sorted : Bool

/-- How many elements a run has. -/
def Run.length (run : Run α) : Nat :=
  run.elements.length

/-! ### Finding runs -/

/-- The elements from `x` on of which each one is followed by the next as a test says, and the
others. -/
def stretch (follows : α → α → Bool) : (x : α) → List α → List α × List α
  | x, [] => ([x], [])
  | x, y :: ys =>
    if follows x y then
      let (run, rest) := stretch follows y ys
      (x :: run, rest)
    else ([x], y :: ys)

/-- The elements at the beginning that lie in order, or in strictly descending order, in which case
they are turned round; and the others. -/
def ordered : List α → List α × List α
  | x :: y :: ys =>
    if before y x then
      let (run, rest) := stretch (fun a b => before b a) x (y :: ys)
      (run.reverse, rest)
    else stretch (fun a b => !before b a) x (y :: ys)
  | xs => (xs, [])

/-- The first run, and the elements behind it. -/
def nextRun (eager : Bool) (least : Nat) (xs : List α) : Option (Run α × List α) :=
  let (run, rest) := ordered before xs
  if least ≤ run.length then some (⟨run, true⟩, rest)
  else if eager then
    (small before (xs.take fewest)).map fun run => (⟨run, true⟩, xs.drop fewest)
  else some (⟨xs.take least, false⟩, xs.drop least)

/-- The runs of a list, at most `n` of them. -/
def runs (eager : Bool) (least : Nat) : (n : Nat) → List α → Option (List (Run α))
  | n + 1, x :: xs => do
    let (run, rest) ← nextRun before eager least (x :: xs)
    let others ← runs eager least n rest
    return run :: others
  | _, _ => some []

/-- The square root of a number, nearly. -/
def approximateSqrt (n : Nat) : Nat :=
  let shift := (1 + n.log2) / 2
  (1 <<< shift + n >>> shift) / 2

/-- How many of `n` elements are enough for a run. -/
def leastRun (n : Nat) : Nat :=
  if n ≤ 4096 then min (n - n / 2) 64 else approximateSqrt n

/-! ### Merging runs -/

/-- Merges two lists in order, the shorter one into the longer. -/
def merge (xs ys : List α) : List α :=
  if xs.length ≤ ys.length then xs.merge ys fun x y => !before y x
  else (ys.reverse.merge xs.reverse fun y x => !before y x).reverse

section

variable (sortRun : List α → Option (List α)) (room : Nat)

/-- The elements of a run, in order. -/
def Run.settle (run : Run α) : Option (List α) :=
  if run.sorted then some run.elements else sortRun run.elements

/-- One run of two neighbours. Where neither is in order, they stay as they are if they fit into the
room for sorting. -/
def join (left right : Run α) : Option (Run α) :=
  if room < left.length + right.length || left.sorted || right.sorted then do
    let xs ← left.settle sortRun
    let ys ← right.settle sortRun
    return ⟨merge before xs ys, true⟩
  else some ⟨left.elements ++ right.elements, false⟩

/-- Joins a run with the runs before it that are at least so deep in the tree. -/
def collapse (depth : Nat) :
    List (Run α × Nat) → Run α → Option (List (Run α × Nat) × Run α)
  | [], run => some ([], run)
  | (left, d) :: stack, run =>
    if depth ≤ d then do
      let run ← join before sortRun room left run
      collapse depth stack run
    else some ((left, d) :: stack, run)

/-- The depth in the tree of the node that divides two neighbours. Places are scaled to words of
sixty-two bits, and the depth is that of the first bit in which the middles of the two differ. -/
def depthAt (n start middle stop : Nat) : Nat :=
  let scale := (1 <<< 62 + n - 1) / n
  let bits := (scale * (start + middle)) ^^^ (scale * (middle + stop))
  if bits = 0 then 64 else 63 - bits.log2

/-- Joins all runs of `n` elements to one, of which `run` is the next one and ends at `stop`. -/
def joinAll (n : Nat) : (stack : List (Run α × Nat)) → (stop : Nat) → Run α → List (Run α) →
    Option (Run α)
  | stack, _, run, [] => (collapse before sortRun room 0 stack run).map (·.2)
  | stack, stop, run, next :: others => do
    let depth := depthAt n (stop - run.length) stop (stop + next.length)
    let (stack, run) ← collapse before sortRun room depth stack run
    joinAll n ((run, depth) :: stack) (stop + next.length) next others

/-- Sorts a list by its runs. -/
def sortRuns (eager : Bool) (xs : List α) : Option (List α) := do
  match ← runs before eager (leastRun xs.length) xs.length xs with
  | [] => return []
  | run :: others =>
    let run ← joinAll before sortRun room xs.length [] run.length run others
    run.settle sortRun

end

end Dice.Sort
