import Dice.Operator.Basic
import Dice.Roller.Basic

/-!
# Runs of throws

Several dice are thrown one after another from a roller: a fixed number of them, until one
satisfies a test, for as long as they satisfy it, or in the place of the elements of a list. Each
run is bounded by the dice that are left.
-/

namespace Dice

variable {ρ : Type} [Roller ρ]

/-- Throws `n` dice. -/
def Faces.drawMany (f : Faces) : (n : Nat) → ρ → List Die × ρ
  | 0, r => ([], r)
  | n + 1, r =>
    let (d, r) := f.draw r
    let (ds, r) := f.drawMany n r
    (d :: ds, r)

/-- `drawMany` throws as many dice as it is asked for. -/
theorem Faces.length_drawMany (f : Faces) (n : Nat) (r : ρ) :
  (f.drawMany n r).1.length = n
  := by
  induction n generalizing r with
  | zero => rfl
  | succ n ih => simp [drawMany, ih]

/-- Throws at most `n` dice, until one satisfies the test. The dice before it are misses. -/
def Faces.drawUntil (f : Faces) (test : Number → Bool) : (n : Nat) → ρ → List Die × Option Die × ρ
  | 0, r => ([], none, r)
  | n + 1, r =>
    let (d, r) := f.draw r
    if test d.outcome then ([], some d, r)
    else
      let (misses, hit, r) := f.drawUntil test n r
      (d :: misses, hit, r)

/-- The misses and the hit of `drawUntil` are at most `n` dice. -/
theorem Faces.length_drawUntil_le (f : Faces) (test : Number → Bool) (n : Nat) (r : ρ) :
  (f.drawUntil test n r).1.length + (f.drawUntil test n r).2.1.toList.length ≤ n
  := by
  induction n generalizing r with
  | zero => simp [drawUntil]
  | succ n ih =>
    have h := ih (f.draw r).2
    unfold drawUntil
    by_cases hit : test (f.draw r).1.outcome
    · simp [hit]
    · simp only [hit, Bool.false_eq_true, if_false, List.length_cons]
      rw [Nat.add_right_comm]
      exact Nat.succ_le_succ h

/-- Throws at most `n` dice, one more whenever the last one satisfies the test. -/
def Faces.drawWhile (f : Faces) (test : Number → Bool) : (n : Nat) → ρ → List Die × ρ
  | 0, r => ([], r)
  | n + 1, r =>
    let (d, r) := f.draw r
    if test d.outcome then
      let (ds, r) := f.drawWhile test n r
      (d :: ds, r)
    else ([d], r)

/-- `drawWhile` throws at most `n` dice. -/
theorem Faces.length_drawWhile_le (f : Faces) (test : Number → Bool) (n : Nat) (r : ρ) :
  (f.drawWhile test n r).1.length ≤ n
  := by
  induction n generalizing r with
  | zero => simp [drawWhile]
  | succ n ih =>
    have h := ih (f.draw r).2
    unfold drawWhile
    by_cases again : test (f.draw r).1.outcome
    · simp only [again, if_true, List.length_cons]
      omega
    · simp [again]

/-- The faces an element is drawn from anew: its own if it is a die, and else those inferred from
its total. -/
def Value.redrawFaces : Value → Faces
  | .die _ f => f
  | v => .inferred v.total

/-- The dice thrown for an element that satisfies the test, at most `n` of them. -/
def Value.redrawn (how : Redraw) (test : Number → Bool) (v : Value) (n : Nat) (r : ρ) :
    List Die × ρ :=
  v.redrawFaces.drawWhile (fun x => how.recursive && test x) n r

/-- Draws anew the elements that satisfy the test, with at most `n` dice in all, and gives how
many of them were thrown. Where none is left, a matching element stays only if such elements are
kept. -/
def redrawAll (how : Redraw) (test : Number → Bool) :
    List Value → (n : Nat) → ρ → List Value × Nat × ρ
  | [], _, r => ([], 0, r)
  | v :: vs, n, r =>
    if test v.total then
      let (ds, r) := v.redrawn how test n r
      let (rest, thrown, r) := redrawAll how test vs (n - ds.length) r
      ((if how.keeps then [v] else []) ++ ds.map Die.toValue ++ rest, ds.length + thrown, r)
    else
      let (rest, thrown, r) := redrawAll how test vs n r
      (v :: rest, thrown, r)

/-- `redrawAll` throws at most `n` dice. -/
theorem thrown_redrawAll_le
    (how : Redraw) (test : Number → Bool) (vs : List Value) (n : Nat) (r : ρ) :
  (redrawAll how test vs n r).2.1 ≤ n
  := by
  induction vs generalizing n r with
  | nil => simp [redrawAll]
  | cons v vs ih =>
    unfold redrawAll
    by_cases hit : test v.total
    · have h := ih (n - (v.redrawn how test n r).1.length) (v.redrawn how test n r).2
      have drawn : (v.redrawn how test n r).1.length ≤ n := by
        apply Faces.length_drawWhile_le
      simp only [hit, if_true]
      exact Nat.add_le_of_le_sub' drawn h
    · simpa [hit] using ih n r

end Dice
