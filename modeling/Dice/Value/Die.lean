import Dice.Value.Code
import Dice.Value.Faces

/-!
# Dice

A die shows an outcome of its faces. One that is thrown does so by construction; one that is put
down by hand is checked.
-/

namespace Dice

/-- An outcome together with the faces it belongs to. -/
structure Die where
  outcome : Number
  faces : Faces

/-- Why a die cannot be put down. -/
inductive DieError where
  | noFaces
  | impossible (outcome : Number) (faces : Faces)

/-- The wording of an error. -/
def DieError.message : DieError → String
  | noFaces => "Dice must have at least one side."
  | impossible x f =>
    x.text ++ " is not a possible outcome of a die with sides " ++ f.toValue.code

namespace Die

/-- A die as a value. -/
def toValue (d : Die) : Value :=
  .die d.outcome d.faces

/-- The die that landed on a face. -/
def landed (f : Faces) (i : Fin f.count) : Die :=
  ⟨f.outcome i, f⟩

/-- A die that shows a number, if its faces contain it. -/
def showing (x : Number) (f : Faces) : Except DieError Die :=
  if f.contains x then .ok ⟨x, f⟩ else .error (.impossible x f)

/-- The die with the total of one value as outcome and the faces another one stands for. -/
def ofValues (outcome faces : Value) : Except DieError Die :=
  match Faces.ofValue? faces with
  | none => .error .noFaces
  | some f => showing outcome.total f

end Die

end Dice
