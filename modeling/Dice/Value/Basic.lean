import Dice.Number.Basic

/-!
# Values

A value is a number, a list of values, or a die: an outcome together with the faces it was rolled
from. The faces of a die are the integers up to a count, or listed values. Every value has a
total, the sum of its parts.
-/

namespace Dice

mutual

/-- A number, a list of values, or a die that shows an outcome. -/
inductive Value where
  | number (x : Number)
  | list (items : List Value)
  | die (outcome : Number) (faces : Faces)

/-- What a die can show: the integers `1` to `n`, or the totals of listed values. -/
inductive Faces where
  | upTo (n : Nat) (pos : 0 < n)
  | listed (first : Value) (rest : List Value)

end

namespace Value

instance : Inhabited Value := ⟨.number .zero⟩

mutual

/-- The number a value comes to: the outcome of a die, and the sum of a list. -/
def total : Value → Number
  | .number x => x
  | .list items => totalFrom .zero items
  | .die outcome _ => outcome

/-- A number and the totals of some values after it, added from the left. -/
def totalFrom (acc : Number) : List Value → Number
  | [] => acc
  | v :: vs => totalFrom (acc + v.total) vs

end

/-- Adding up is one fold over the totals. -/
theorem totalFrom_eq_foldl (acc : Number) (vs : List Value) :
  totalFrom acc vs = (vs.map total).foldl (· + ·) acc
  := by
  induction vs generalizing acc with
  | nil => rfl
  | cons v vs ih => simp [totalFrom, ih]

/-- The total of a list is the sum of the totals of its elements. -/
theorem total_list (vs : List Value) :
  total (.list vs) = Number.sum (vs.map total)
  := by
  simp [total, totalFrom_eq_foldl, Number.sum]

/-- The elements of a list; any other value is the only element. -/
def elements : Value → List Value
  | .list items => items
  | v => [v]

/-- The faces of a die. -/
def faces? : Value → Option Faces
  | .die _ faces => some faces
  | _ => none

mutual

/-- Whether two values are equal: lists element by element, dice by outcome and faces, and a die
and a number by the outcome alone. -/
def equal : Value → Value → Bool
  | .list vs, .list ws => equalAll vs ws
  | .list _, _ => false
  | _, .list _ => false
  | .die x f, .die y g => x == y && equalFaces f g
  | .die x _, .number y => x == y
  | .number x, .die y _ => x == y
  | .number x, .number y => x == y

/-- Whether two dice have equal faces, of the same kind. -/
def equalFaces : Faces → Faces → Bool
  | .upTo n _, .upTo m _ => n == m
  | .listed v vs, .listed w ws => equal v w && equalAll vs ws
  | _, _ => false

/-- Whether two lists have the same length and equal elements. -/
def equalAll : List Value → List Value → Bool
  | [], [] => true
  | v :: vs, w :: ws => equal v w && equalAll vs ws
  | _, _ => false

end

instance : BEq Value := ⟨equal⟩

end Value

end Dice
