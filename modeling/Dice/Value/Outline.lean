import Dice.Number.Text
import Dice.Value.Faces

/-!
# Outlines

The outline of a value has a line for every number, list and die in it. What belongs to a list
stands two spaces further in than the list, and the faces of a die four.
-/

namespace Dice

/-- The beginning of a line at some depth. -/
def margin (depth : Nat) : List Char :=
  List.replicate (2 * depth) ' '

mutual

/-- The outline of a value at some depth. -/
def Value.outlineAt (depth : Nat) : Value → List Char
  | .number x => margin depth ++ "Number: ".toList ++ x.chars
  | .list vs => margin depth ++ "List:".toList ++ outlineRest (depth + 1) vs
  | .die x f =>
    margin depth ++ "Die:\n".toList ++ margin depth ++ "  Value: ".toList ++ x.chars ++ '\n'
      :: margin depth ++ "  Sides:\n".toList ++ f.outlineAt (depth + 2)

/-- The outline of the value the faces stand for. -/
def Faces.outlineAt (depth : Nat) : Faces → List Char
  | .upTo n _ => margin depth ++ "Number: ".toList ++ (Number.int (.ofNat n)).chars
  | .listed v vs =>
    margin depth ++ "List:".toList ++ '\n' :: v.outlineAt (depth + 1) ++ outlineRest (depth + 1) vs

/-- The outlines of some values, each on a new line. -/
def outlineRest (depth : Nat) : List Value → List Char
  | [] => []
  | v :: vs => '\n' :: v.outlineAt depth ++ outlineRest depth vs

end

/-- The outline of a value. -/
def Value.outline (v : Value) : String :=
  .ofList (v.outlineAt 0)

end Dice
