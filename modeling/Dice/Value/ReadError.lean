import Dice.Decimal.Integer
import Dice.Text.Quoted
import Dice.Value.Die
import Dice.Value.Token

/-!
# Errors in the text of a value

An error names the place in the text, what stands there, and what is wrong with it.
-/

namespace Dice

/-- What is wrong with a text. -/
inductive ReadError.Cause where
  | unexpectedToken (found : Option Token.Kind) (expected : List Token.Kind)
  | unexpectedText (expected : List Token.Kind)
  | outOfRange
  | invalidDie (why : DieError)

/-- What is wrong with a text, and the part of it, in bytes, that shows it. -/
structure ReadError where
  cause : ReadError.Cause
  start : Nat
  stop : Nat
  slice : List Char

namespace ReadError

/-- The names of the expected kinds after the first, in a row that ends with `or`. -/
def orNames : List Token.Kind → String
  | [] => ""
  | [k] => ", or " ++ k.name
  | k :: ks => ", " ++ k.name ++ orNames ks

/-- The expected kinds; nothing but the end may come where none is expected. -/
def expectedNames : List Token.Kind → String
  | [] => "end of input"
  | [k] => k.name
  | [k, l] => k.name ++ " or " ++ l.name
  | k :: ks => k.name ++ orNames ks

/-- The wording of a cause. -/
def Cause.message : Cause → String
  | unexpectedToken (some found) expected =>
    "unexpected token: found " ++ found.name ++ ", expected " ++ expectedNames expected
  | unexpectedToken none expected =>
    "unexpected end of input, expected " ++ expectedNames expected
  | unexpectedText expected => "expected " ++ expectedNames expected
  | outOfRange => "number out of range"
  | invalidDie why => "invalid die: " ++ why.message

/-- The wording of an error. -/
def message (e : ReadError) : String :=
  "error at position " ++ .ofList (Integer.text e.start)
    ++ " (" ++ .ofList (Text.quote e.slice) ++ "): " ++ e.cause.message

end ReadError

end Dice
