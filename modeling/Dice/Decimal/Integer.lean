/-!
# Integers in decimal

An integer is written with a minus sign where it is negative, and read with either sign or none.
-/

namespace Dice.Integer

/-- The decimal text of an integer. -/
def text (n : Int) : List Char :=
  if n < 0 then '-' :: Nat.toDigits 10 n.natAbs else Nat.toDigits 10 n.natAbs

/-- The natural number a nonempty run of digits denotes. -/
def digits? (cs : List Char) : Option Nat :=
  if !cs.isEmpty && cs.all Char.isDigit then some (Nat.ofDigitChars 10 cs 0) else none

/-- The integer a text denotes: an optional sign and at least one digit. -/
def ofText? : List Char → Option Int
  | '+' :: cs => (digits? cs).map Int.ofNat
  | '-' :: cs => (digits? cs).map fun n => -(n : Int)
  | cs => (digits? cs).map Int.ofNat

end Dice.Integer
