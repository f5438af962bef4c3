/-!
# Decimals

The number `digits · 10 ^ exponent`, its positional text, and the double nearest to it.
-/

namespace Dice

/-- The number `digits · 10 ^ exponent`. -/
structure Decimal where
  digits : Nat
  exponent : Int
deriving DecidableEq

namespace Decimal

/-- The double nearest to a decimal, a tie going to the even significand. -/
def toFloat (d : Decimal) : Float :=
  .ofScientific d.digits (d.exponent < 0) d.exponent.natAbs

/-- The digits after the point of `n / 10 ^ places`, for `n` below `10 ^ places`, without the
zeros at the end. -/
def fraction (n places : Nat) : List Char :=
  let ds := Nat.toDigits 10 n
  ((List.replicate (places - ds.length) '0' ++ ds).reverse.dropWhile (· == '0')).reverse

/-- The positional text: never an exponent, and a point only before a nonempty fraction. -/
def text (d : Decimal) : List Char :=
  match d.exponent with
  | .ofNat k => Nat.toDigits 10 (d.digits * Nat.pow 10 k)
  | .negSucc k =>
    let whole := Nat.toDigits 10 (d.digits / Nat.pow 10 (k + 1))
    match fraction (d.digits % Nat.pow 10 (k + 1)) (k + 1) with
    | [] => whole
    | ds => whole ++ '.' :: ds

end Decimal

end Dice
