import Dice.Binary
import Dice.Decimal.Basic

/-!
# The shortest decimal that reads back

The reals that round to the double `m · 2 ^ q` form an interval around it, which holds its ends
exactly when `m` is even. Of the grids `10 ^ k`, the coarsest one with a point in the interval
gives the fewest digits. If a grid has a point in the interval, so is one of the two points of
the grid around the double itself; of two such points the nearer one is taken, and the upper one
on a tie.
-/

namespace Dice.Decimal

/-- The interval around `m · 2 ^ q`, in units of `2 ^ (q - 2)`. Below the least significand of a
binade the doubles lie twice as close. -/
def interval (m : Nat) (q : Int) : Nat × Nat :=
  (if m = Nat.pow 2 52 ∧ -1074 < q then 4 * m - 1 else 4 * m - 2, 4 * m + 2)

/-- The common measure of `10 ^ k` and `2 ^ e`: naturals in the proportion of the two. -/
def proportion (k e : Int) : Nat × Nat :=
  (Nat.pow 10 k.toNat * Nat.pow 2 (-e).toNat, Nat.pow 2 e.toNat * Nat.pow 10 (-k).toNat)

/-- The point `c` of the grid `10 ^ k` that stands for `m · 2 ^ q`, if there is one. -/
def onGrid? (m : Nat) (q k : Int) : Option Nat :=
  let (step, unit) := proportion k (q - 2)
  let (low, high) := interval m q
  let value := 4 * m * unit
  let below := value / step
  let inside (c : Nat) : Bool :=
    if m % 2 = 0 then low * unit ≤ c * step ∧ c * step ≤ high * unit
    else low * unit < c * step ∧ c * step < high * unit
  match inside below, inside (below + 1) with
  | false, false => none
  | true, false => some below
  | false, true => some (below + 1)
  | true, true => some (if 2 * (value - below * step) < step then below else below + 1)

/-- The decimal equal to `m · 2 ^ q`. -/
def exact (m : Nat) : Int → Decimal
  | .ofNat k => ⟨m * Nat.pow 2 k, 0⟩
  | .negSucc k => ⟨m * Nat.pow 5 (k + 1), .negSucc k⟩

/-- The point on the coarsest of the `n` grids from `10 ^ k` down. -/
def shortestFrom (m : Nat) (q : Int) : Nat → Int → Decimal
  | 0, _ => exact m q
  | n + 1, k =>
    match onGrid? m q k with
    | some c => ⟨c, k⟩
    | none => shortestFrom m q n (k - 1)

/-- The shortest decimal that rounds to `m · 2 ^ q`, for `m` positive. The search starts at a
power of ten above the double; seventeen digits always suffice. -/
def shortest (m : Nat) (q : Int) : Decimal :=
  shortestFrom m q 21 ((m.log2 + 1 + q) * 30103 / 100000 + 1)

/-- The text of a double: shortest digits, `inf`, `-inf` or `NaN`. A zero keeps its sign. -/
def ofFloat (x : Float) : List Char :=
  if x.isNaN then ['N', 'a', 'N']
  else
    match Binary.ofFloat? x with
    | none => if x < 0 then ['-', 'i', 'n', 'f'] else ['i', 'n', 'f']
    | some b =>
      let digits := if b.significand = 0 then ['0'] else (shortest b.significand b.exponent).text
      if b.negative then '-' :: digits else digits

end Dice.Decimal
