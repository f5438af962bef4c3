import Dice.Number.Text
import Dice.Value.Basic

/-!
# Typed text

The typed text of a value shows the kind of every number in it. A die is written
`{OUTCOME|FACES}`.
-/

namespace Dice

mutual

/-- The typed text of a value. -/
def Value.typedChars : Value → List Char
  | .number x => x.typed
  | .list [] => ['[', ']']
  | .list (v :: vs) => '[' :: (v.typedChars ++ typedRest vs)
  | .die x f => '{' :: (x.typed ++ '|' :: (f.typedChars ++ ['}']))

/-- The typed text of the faces: a bare count or a list. -/
def Faces.typedChars : Faces → List Char
  | .upTo n _ => Nat.toDigits 10 n
  | .listed v vs => '[' :: (v.typedChars ++ typedRest vs)

/-- The typed text of a list behind its first element. -/
def typedRest : List Value → List Char
  | [] => [']']
  | v :: vs => ',' :: (v.typedChars ++ typedRest vs)

end

/-- The typed text of a value. -/
def Value.typed (v : Value) : String :=
  .ofList v.typedChars

end Dice
