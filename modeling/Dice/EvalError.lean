import Dice.Operator.Basic
import Dice.Value.ReadError

/-!
# Errors of evaluation

Every error is the cause of a failed evaluation; its wording is given in one place. One of them is
not meant to come up: where a sort breaks off, the evaluation goes no further, and a console ends
with it.
-/

namespace Dice

/-- Why an evaluation failed. -/
inductive EvalError where
  /-- A number of dice below one. -/
  | nonpositiveCount
  /-- A die that cannot be put down, or that has no faces. -/
  | die (why : DieError)
  /-- A repeat that should run less than no times. -/
  | negativeRepeat
  /-- One operand for an operator that takes two. -/
  | needsTwoOperands (op : Operator)
  /-- No dice left in the quota. -/
  | quotaExhausted
  /-- An operand that is no value. -/
  | unreadable (why : ReadError)
  /-- A name without a value. -/
  | unbound (name : String)
  /-- A symbol of no operator. -/
  | unknownOperator (symbol : String)
  /-- A symbol of no comparator. -/
  | unknownComparator (symbol : String)
  /-- A line that is no command. -/
  | malformedCommand
  /-- A reference to an earlier value where there is none. -/
  | noPrevious
  /-- A reference to the index of a repeat outside of any. -/
  | noIndex
  /-- Totals whose order contradicts itself, where a sort of them breaks off. -/
  | contradictoryOrder

/-- A text in quotes. -/
def quoted (s : String) : String :=
  .ofList (Text.quote s.toList)

/-- The wording of an error. -/
def EvalError.message : EvalError → String
  | nonpositiveCount => "The number of dice to roll must be positive."
  | die why => why.message
  | negativeRepeat => "Cannot repeat a negative number of times."
  | needsTwoOperands op => "`" ++ op.symbol ++ "` needs two operands"
  | quotaExhausted => "too many dice rolled"
  | unreadable why => why.message
  | unbound name => "unbound variable " ++ name
  | unknownOperator symbol => "unknown dice operator " ++ quoted symbol
  | unknownComparator symbol => "unknown comparator " ++ quoted symbol
  | malformedCommand => "expected `<operator> <operand> [<operand>]`"
  | noPrevious => "no previous value"
  | noIndex => "no index"
  | contradictoryOrder =>
    "user-provided comparison function does not correctly implement a total order"

end Dice
