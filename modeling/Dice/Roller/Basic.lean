import Dice.Value.Die

/-!
# Rollers

A roller decides on which face a die lands, and is all that chance there is. What it hands out is
below the number of faces by its type.
-/

namespace Dice

/-- A source of landings: one of `n` faces, and the roller for the next die. -/
class Roller (ρ : Type) where
  next (n : Nat) (pos : 0 < n) (r : ρ) : Fin n × ρ

/-- Throws one die. -/
def Faces.draw {ρ : Type} [Roller ρ] (f : Faces) (r : ρ) : Die × ρ :=
  let (i, r) := Roller.next f.count f.count_pos r
  (.landed f i, r)

end Dice
