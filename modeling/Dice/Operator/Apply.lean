import Dice.Roll

/-!
# Applying operators

Counts and thresholds are the totals of the right operand, and a lone value on the left is a list
of one. A choice leaves what it did not return in the scope, and a run of throws the die that
ended it. A choice by rank fails where the sort of the totals breaks off.
-/

namespace Dice.Operator

variable {ρ : Type} [Roller ρ]

/-- Assigns what was set aside to a name and returns the rest. -/
def publish (name : String) (parted : Parted) : Play ρ Value := do
  Play.modifyScope (·.set name parted.side)
  return .list parted.value

/-- Applies an operator to two operands. -/
def apply (op : Operator) (left right : Value) : Play ρ Value := do
  match op with
  | roll => return .list (← Play.roll left.total right)
  | redraw how cmp => return .list (← Play.redraw left.elements cmp right.total how)
  | rollUntil cmp => publish Scope.lastHit (← Play.rollUntil left cmp right.total)
  | ranked action rank =>
    match Choice.byCount? action rank right.total.toInt left.elements with
    | some parted => publish Scope.lastDropped parted
    | none => throw .contradictoryOrder
  | filtered .keep cmp =>
    publish Scope.lastDropped (Choice.byComparison cmp right.total left.elements)
  | filtered .drop cmp =>
    publish Scope.lastDropped (Choice.byComparison cmp.opposite right.total left.elements)

/-- Applies an operator to one operand. Only a throw has this form. -/
def applyOne (op : Operator) (operand : Value) : Play ρ Value := do
  match op with
  | roll => return (← Play.rollOne operand).toValue
  | op => throw (.needsTwoOperands op)

end Dice.Operator
