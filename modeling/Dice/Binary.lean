/-!
# Doubles as binary fractions

A finite double is exactly `± significand · 2 ^ exponent`. The sign, the significand and the
exponent are read off its bits, so a question about its exact value is one about integers.
-/

namespace Dice

/-- The number `± significand · 2 ^ exponent`. -/
structure Binary where
  negative : Bool
  significand : Nat
  exponent : Int
deriving DecidableEq

namespace Binary

/-- The exact value of a finite double; an infinity or a NaN has none. -/
def ofFloat? (x : Float) : Option Binary :=
  let bits := x.toBits.toNat
  let negative := bits / Nat.pow 2 63 == 1
  let fraction := bits % Nat.pow 2 52
  match bits / Nat.pow 2 52 % Nat.pow 2 11 with
  | 0 => some ⟨negative, fraction, -1074⟩
  | 2047 => none
  | e => some ⟨negative, Nat.pow 2 52 + fraction, (e : Int) - 1075⟩

/-- The integer part of the magnitude. -/
def magnitude (x : Binary) : Nat :=
  match x.exponent with
  | .ofNat k => x.significand * Nat.pow 2 k
  | .negSucc k => x.significand / Nat.pow 2 (k + 1)

/-- The integer nearest `x` on the side of zero. -/
def truncate (x : Binary) : Int :=
  if x.negative then -(x.magnitude : Int) else x.magnitude

/-- Whether the value is an integer. -/
def isIntegral (x : Binary) : Bool :=
  match x.exponent with
  | .ofNat _ => true
  | .negSucc k => x.significand % Nat.pow 2 (k + 1) == 0

/-- The magnitude as a multiple of `2 ^ e`, for `e` at most the exponent of `x`. -/
def scaled (x : Binary) (e : Int) : Nat :=
  x.significand * Nat.pow 2 (x.exponent - e).toNat

/-- Whether `x` is an integer multiple of `y`, both brought to the smaller exponent. -/
def isMultipleOf (x y : Binary) : Bool :=
  let e := min x.exponent y.exponent
  x.scaled e % y.scaled e == 0

end Binary

end Dice
