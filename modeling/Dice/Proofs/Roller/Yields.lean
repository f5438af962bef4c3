import Dice.Throw

/-!
# Dice one after another

A roller yields some dice when they are thrown from it one after another, each from faces of its
own and from the roller that the one before it has left. Every run of throws yields its dice in
the order in which it draws them, and leaves the roller behind them.
-/

namespace Dice

variable {ρ : Type} [Roller ρ]

/-- A roller yields some dice, and another roller is left behind them. -/
inductive Roller.Yields : ρ → List Die → ρ → Prop
  | nil (r : ρ) : Yields r [] r
  | cons (f : Faces) {r r' : ρ} {ds : List Die} :
    Yields (f.draw r).2 ds r' → Yields r ((f.draw r).1 :: ds) r'

namespace Roller.Yields

/-- The dice that are yielded behind others. -/
theorem append {r₁ r₂ r₃ : ρ} {ds es : List Die} (h : Yields r₁ ds r₂) (h' : Yields r₂ es r₃) :
  Yields r₁ (ds ++ es) r₃
  := by
  induction h with
  | nil r => exact h'
  | cons f _ ih => exact .cons f (ih h')

theorem singleton (f : Faces) (r : ρ) :
  Yields r [(f.draw r).1] (f.draw r).2
  := .cons f (.nil _)

end Roller.Yields

/-! ### Runs of throws -/

namespace Faces

open Roller

variable (f : Faces)

theorem yields_drawMany (n : Nat) (r : ρ) :
  Yields r (f.drawMany n r).1 (f.drawMany n r).2
  := by
  induction n generalizing r with
  | zero => exact .nil r
  | succ n ih => exact .cons f (ih _)

/-- The misses come before the hit. -/
theorem yields_drawUntil (test : Number → Bool) (n : Nat) (r : ρ) :
  Yields r ((f.drawUntil test n r).1 ++ (f.drawUntil test n r).2.1.toList)
    (f.drawUntil test n r).2.2
  := by
  induction n generalizing r with
  | zero => exact .nil r
  | succ n ih =>
    by_cases hit : test (f.draw r).1.outcome
    · simp only [drawUntil, hit, if_true]
      apply Yields.singleton
    · simp only [drawUntil, hit, Bool.false_eq_true, if_false]
      exact .cons f (ih _)

theorem yields_drawWhile (test : Number → Bool) (n : Nat) (r : ρ) :
  Yields r (f.drawWhile test n r).1 (f.drawWhile test n r).2
  := by
  induction n generalizing r with
  | zero => exact .nil r
  | succ n ih =>
    by_cases again : test (f.draw r).1.outcome
    · simp only [drawWhile, again, if_true]
      exact .cons f (ih _)
    · simp only [drawWhile, again, Bool.false_eq_true, if_false]
      apply Yields.singleton

end Faces

/-- The dice that are thrown for the elements of a redraw. -/
def redrawDice (how : Redraw) (test : Number → Bool) : List Value → (n : Nat) → ρ → List Die
  | [], _, _ => []
  | v :: vs, n, r =>
    if test v.total then
      let (ds, r) := v.redrawn how test n r
      ds ++ redrawDice how test vs (n - ds.length) r
    else redrawDice how test vs n r

/-- No dice are thrown where none is left. -/
theorem redrawDice_zero (how : Redraw) (test : Number → Bool) (vs : List Value) (r : ρ) :
  redrawDice how test vs 0 r = []
  := by
  induction vs with
  | nil => rfl
  | cons v vs ih =>
    by_cases hit : test v.total
    · rw [redrawDice, if_pos hit]
      exact ih
    · rw [redrawDice, if_neg hit, ih]

/-- The dice of a redraw are as many as are thrown for it. -/
theorem length_redrawDice
    (how : Redraw) (test : Number → Bool) (vs : List Value) (n : Nat) (r : ρ) :
  (redrawDice how test vs n r).length = (redrawAll how test vs n r).2.1
  := by
  induction vs generalizing n r with
  | nil => rfl
  | cons v vs ih =>
    by_cases hit : test v.total
    · simp only [redrawDice, redrawAll, hit, if_true, List.length_append, ih]
    · simp only [redrawDice, redrawAll, hit, Bool.false_eq_true, if_false, ih]

theorem yields_redrawAll
    (how : Redraw) (test : Number → Bool) (vs : List Value) (n : Nat) (r : ρ) :
  Roller.Yields r (redrawDice how test vs n r) (redrawAll how test vs n r).2.2
  := by
  induction vs generalizing n r with
  | nil => exact .nil r
  | cons v vs ih =>
    by_cases hit : test v.total
    · simp only [redrawDice, redrawAll, hit, if_true]
      apply Roller.Yields.append _ (ih _ _)
      apply Faces.yields_drawWhile
    · simp only [redrawDice, redrawAll, hit, Bool.false_eq_true, if_false]
      apply ih

/-- The dice of a redraw stand in its result in their order. -/
theorem sublist_redrawAll
    (how : Redraw) (test : Number → Bool) (vs : List Value) (n : Nat) (r : ρ) :
  ((redrawDice how test vs n r).map Die.toValue).Sublist (redrawAll how test vs n r).1
  := by
  induction vs generalizing n r with
  | nil => exact .slnil
  | cons v vs ih =>
    by_cases hit : test v.total
    · simp only [redrawDice, redrawAll, hit, if_true, List.map_append]
      apply List.Sublist.append _ (ih _ _)
      apply List.sublist_append_right
    · simp only [redrawDice, redrawAll, hit, Bool.false_eq_true, if_false]
      apply (ih n r).cons

end Dice
