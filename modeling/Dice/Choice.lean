import Dice.Comparator
import Dice.Operator.Basic
import Dice.Sort
import Dice.Value.Basic

/-!
# Choices

A choice divides a list into the elements it admits and the rest, both in the order of the list.
Elements are ranked by their totals in tiers of equal ones. A choice by number admits whole tiers,
the most extreme first, until it has enough. To find them it sorts the totals, and where their order
contradicts itself, the sort may break off and there is no choice.
-/

namespace Dice

/-- What an operator returns, and what it sets aside. -/
structure Parted where
  value : List Value
  side : Value

/-- The order of totals from the most extreme down. Numbers that do not compare rank equal. -/
def Rank.order (rank : Rank) (a b : Number) : Ordering :=
  let o := (a.compare? b).getD .eq
  match rank with
  | highest => o.swap
  | lowest => o

namespace Choice

/-- The totals by rank, those that rank equal in the order they came in. There are none where the
sort breaks off. -/
def sort? (rank : Rank) (xs : List Number) : Option (List Number) :=
  Sort.sort? (fun x y => rank.order x y == .lt) xs

/-- The totals after one of a tier, without those equal to the last one left in. -/
def distinctFrom (last : Number) : List Number → List Number
  | [] => []
  | x :: xs => if x == last then distinctFrom last xs else x :: distinctFrom x xs

/-- One total of each tier. -/
def distinct : List Number → List Number
  | [] => []
  | x :: xs => x :: distinctFrom x xs

/-- The last tier needed for `count` elements, after `found` elements of the tiers so far, of
which `last` was the last one. -/
def boundaryFrom (totals : List Number) (count : Nat) :
    (last : Option Number) → (found : Nat) → List Number → Option Number
  | last, _, [] => last
  | _, found, t :: ts =>
    let found := found + totals.countP (· == t)
    if count ≤ found then some t else boundaryFrom totals count (some t) found ts

/-- The last tier needed for `count` of the totals, which are given once more by rank. -/
def boundary? (count : Nat) (totals sorted : List Number) : Option Number :=
  boundaryFrom totals count none 0 (distinct sorted)

/-- The elements whose totals satisfy a test, and the rest. -/
def split (test : Number → Bool) (vs : List Value) : List Value × List Value :=
  vs.partition fun v => test v.total

/-- The elements down to the last tier needed, if there is one, and the rest. -/
def downTo (rank : Rank) (vs : List Value) : (boundary : Option Number) → List Value × List Value
  | some b => split (fun x => rank.order x b != .gt) vs
  | none => ([], vs)

/-- The elements admitted by a choice of `count` by rank, and the rest. There are none where the
sort breaks off. -/
def divide? (rank : Rank) (count : Int64) (vs : List Value) : Option (List Value × List Value) :=
  let count := count.toInt.toNat
  if count = 0 then some ([], vs)
  else if vs.length ≤ count then some (vs, [])
  else
    let totals := vs.map Value.total
    (sort? rank totals).map fun sorted => downTo rank vs (boundary? count totals sorted)

/-- The two sides of a choice: the elements it admits are returned where they are kept, and set
aside where they are dropped. -/
def sides (action : Action) (admitted rest : List Value) : Parted :=
  match action with
  | .keep => ⟨admitted, .list rest⟩
  | .drop => ⟨rest, .list admitted⟩

/-- Keeps or drops `count` elements by rank, if the sort does not break off. -/
def byCount? (action : Action) (rank : Rank) (count : Int64) (vs : List Value) : Option Parted :=
  (divide? rank count vs).map fun (admitted, rest) => sides action admitted rest

/-- Keeps the elements that satisfy a comparison. -/
def byComparison (cmp : Comparator) (threshold : Number) (vs : List Value) : Parted :=
  let (kept, dropped) := split (cmp.holds · threshold) vs
  ⟨kept, .list dropped⟩

end Choice

end Dice
