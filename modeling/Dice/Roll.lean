import Dice.Choice
import Dice.Context
import Dice.Throw

/-!
# Rolls

The operations that throw dice. Each checks its operands, takes what the quota leaves it, charges
what it throws and records it. Nothing is charged, thrown or recorded when it fails.
-/

namespace Dice.Play

variable {ρ : Type} [Roller ρ]

/-- The number of dice a count asks for. -/
def diceCount (count : Number) : Play ρ Nat :=
  let n := count.toInt.toInt.toNat
  if n = 0 then throw .nonpositiveCount else return n

/-- Throws a number of dice, as far as the quota goes. -/
def roll (count : Number) (faces : Value) : Play ρ (List Value) := do
  let requested ← diceCount count
  let f ← facesOf faces
  let granted := min requested (← budget)
  charge granted
  let dice := (← throwing (f.drawMany granted)).map Die.toValue
  record (fun _ => .ofList (count.chars ++ 'd' :: faces.codeChars)) dice
  return dice

/-- Throws one die. -/
def rollOne (faces : Value) : Play ρ Die := do
  let f ← facesOf faces
  let _ ← budget
  charge 1
  let die ← throwing f.draw
  record (fun _ => .ofList ('1' :: 'd' :: faces.codeChars)) [die.toValue]
  return die

/-- Throws dice until one satisfies a comparison. That one is set aside and the others are
returned; zero is set aside where the quota ends the throws. -/
def rollUntil (faces : Value) (cmp : Comparator) (threshold : Number) : Play ρ Parted := do
  let f ← facesOf faces
  let limit ← budget
  let (misses, hit) ← throwing fun r =>
    let (misses, hit, r) := f.drawUntil (cmp.holds · threshold) limit r
    ((misses.map Die.toValue, hit), r)
  charge (misses.length + hit.toList.length)
  record (fun _ => .ofList (faces.codeChars ++ 'u' :: (cmp.symbol.toList ++ threshold.chars))) misses
  match hit with
  | some die =>
    record (fun _ => "Killed above roll:") [die.toValue]
    return ⟨misses, die.toValue⟩
  | none => return ⟨misses, .number .zero⟩

/-- Draws anew the elements of a list that satisfy a comparison. -/
def redraw (vs : List Value) (cmp : Comparator) (threshold : Number) (how : Redraw) :
    Play ρ (List Value) := do
  let limit ← budget
  let (result, thrown) ← throwing fun r =>
    let (result, thrown, r) := redrawAll how (cmp.holds · threshold) vs limit r
    ((result, thrown), r)
  charge thrown
  record
    (fun _ => .ofList ((Value.list vs).codeChars
      ++ (how.symbol ++ cmp.symbol).toList ++ threshold.chars))
    result
  return result

end Dice.Play
