import Dice.Decimal.Basic
import Dice.Decimal.Integer

/-!
# Reading decimals

A numeral is a run of digits, with at most one point before, within or after it. A double may
also have a sign, an exponent, or be spelled `inf`, `infinity` or `nan` in any case.
-/

namespace Dice.Decimal

/-- The decimal a numeral denotes; a text without a digit, or with anything but digits and one
point, denotes none. -/
def ofNumeral? (cs : List Char) : Option Decimal :=
  let whole := cs.takeWhile Char.isDigit
  match cs.dropWhile Char.isDigit with
  | [] => if whole.isEmpty then none else some ⟨Nat.ofDigitChars 10 whole 0, 0⟩
  | '.' :: places =>
    if places.all Char.isDigit && !(whole.isEmpty && places.isEmpty) then
      some ⟨Nat.ofDigitChars 10 (whole ++ places) 0, -(places.length : Int)⟩
    else none
  | _ => none

/-- A double without its sign. -/
def unsigned? (cs : List Char) : Option Float :=
  let word := String.ofList (cs.map Char.toLower)
  if word = "inf" ∨ word = "infinity" then some (1 / 0)
  else if word = "nan" then some (0 / 0)
  else
    let mark (c : Char) : Bool := c == 'e' || c == 'E'
    (ofNumeral? (cs.takeWhile (!mark ·))).bind fun d =>
      match cs.dropWhile (!mark ·) with
      | [] => some d.toFloat
      | _ :: e => (Integer.ofText? e).map fun k => toFloat ⟨d.digits, d.exponent + k⟩

/-- The double a text denotes, rounded to nearest. -/
def toFloat? (cs : List Char) : Option Float :=
  match cs with
  | '+' :: ds => unsigned? ds
  | '-' :: ds => (unsigned? ds).map (-·)
  | ds => unsigned? ds

end Dice.Decimal
