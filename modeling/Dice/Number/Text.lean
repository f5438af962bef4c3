import Dice.Decimal.Integer
import Dice.Decimal.Reading
import Dice.Decimal.Shortest
import Dice.Number.Basic

/-!
# The text of numbers

An integer is written in decimal, a double with the fewest digits that read back. The kind of a
number does not show in its text; the typed text puts `i` or `f` before it.
-/

namespace Dice

namespace Number

/-- The text of a number. -/
def chars : Number → List Char
  | int n => Integer.text n.toInt
  | float x => Decimal.ofFloat x

/-- The text of a number. -/
def text (x : Number) : String :=
  .ofList x.chars

/-- The text of a number behind a letter for its kind. -/
def typed : Number → List Char
  | int n => 'i' :: Integer.text n.toInt
  | float x => 'f' :: Decimal.ofFloat x

/-- The number of a typed text. -/
def ofTyped? : List Char → Option Number
  | 'i' :: cs => ((Integer.ofText? cs).bind int64?).map int
  | 'f' :: cs => (Decimal.toFloat? cs).map float
  | _ => none

end Number

end Dice
