import Dice.Number.Text
import Dice.Value.Basic

/-!
# Code and display

The code of a value is the text it is read from. A die is written `{!die,OUTCOME,FACES}` with its
count of sides or the list of its faces. The display of a value writes a die as its bare outcome.
-/

namespace Dice

mutual

/-- The code of a value. -/
def Value.codeChars : Value → List Char
  | .number x => x.chars
  | .list [] => ['[', ']']
  | .list (v :: vs) => '[' :: (v.codeChars ++ codeRest vs)
  | .die x f => '{' :: '!' :: 'd' :: 'i' :: 'e' :: ',' :: (x.chars ++ ',' :: (f.codeChars ++ ['}']))

/-- The code of the faces: a bare count or a list. -/
def Faces.codeChars : Faces → List Char
  | .upTo n _ => Nat.toDigits 10 n
  | .listed v vs => '[' :: (v.codeChars ++ codeRest vs)

/-- The code of a list behind its first element. -/
def codeRest : List Value → List Char
  | [] => [']']
  | v :: vs => ',' :: (v.codeChars ++ codeRest vs)

end

mutual

/-- The display of a value. -/
def Value.displayChars : Value → List Char
  | .number x => x.chars
  | .list [] => ['[', ']']
  | .list (v :: vs) => '[' :: (v.displayChars ++ displayRest vs)
  | .die x _ => x.chars

/-- The display of a list behind its first element. -/
def displayRest : List Value → List Char
  | [] => [']']
  | v :: vs => ',' :: (v.displayChars ++ displayRest vs)

end

/-- The code of a value. -/
def Value.code (v : Value) : String :=
  .ofList v.codeChars

/-- The code of the faces of a die. -/
def Faces.code (f : Faces) : String :=
  .ofList f.codeChars

/-- The display of a value. -/
def Value.display (v : Value) : String :=
  .ofList v.displayChars

end Dice
