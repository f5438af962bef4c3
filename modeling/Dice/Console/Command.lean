import Dice.Script
import Dice.Text.Blank

/-!
# Commands

A command is a row of words: an operator before its operands, `die` before an outcome and faces,
or `repeat` before a count and another command.
-/

namespace Dice.Console

variable {ρ : Type}

/-- The value of a word: that of a name if it begins with an underscore, and else the one it
denotes. -/
def operand (word : String) : Play ρ Value :=
  match word.toList with
  | '_' :: _ => (Operand.name word).resolve none none
  | _ => (Operand.text word).resolve none none

/-- The die with an outcome and faces. -/
def putDown (outcome faces : Value) : Play ρ Value :=
  match Die.ofValues outcome faces with
  | .ok d => return d.toValue
  | .error why => throw (.die why)

/-- Evaluates a command. -/
def eval [Roller ρ] : List String → Play ρ Value
  | "repeat" :: count :: body => do
    let count ← operand count
    return .list (← Play.times count.total fun _ => eval body)
  | ["die", outcome, faces] => do
    let outcome ← operand outcome
    let faces ← operand faces
    putDown outcome faces
  | [op, only] => do
    let op ← Play.operator op
    let only ← operand only
    op.applyOne only
  | [op, left, right] => do
    let left ← operand left
    let right ← operand right
    let op ← Play.operator op
    op.apply left right
  | _ => throw .malformedCommand

end Dice.Console
