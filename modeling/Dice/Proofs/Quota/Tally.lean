import Dice.Proofs.Play.Call
import Dice.Proofs.Roller.Yields
import Dice.Roller.Replay

/-!
# Counted draws

A tally tells how many indices a roller has handed out. A replay has one of its own, its position,
and every roller has one once its draws are counted. Each run of throws counts exactly the indices
that it draws, and stays within its limit whatever they are.
-/

namespace Dice

/-- The number of indices that a roller has handed out. -/
class Tally (ρ : Type) [Roller ρ] where
  drawn (r : ρ) : Nat
  drawn_next (n : Nat) (pos : 0 < n) (r : ρ) : drawn (Roller.next n pos r).2 = drawn r + 1

open Tally

instance : Tally Replay where
  drawn := Replay.position
  drawn_next _ _ _ := rfl

/-- A roller and the number of indices drawn from it. -/
structure Counted (ρ : Type) where
  roller : ρ
  drawn : Nat

namespace Counted

variable {ρ : Type} [Roller ρ]

/-- An index comes from the roller itself, and is counted. -/
instance : Roller (Counted ρ) where
  next n pos c :=
    let (i, r) := Roller.next n pos c.roller
    (i, ⟨r, c.drawn + 1⟩)

instance : Tally (Counted ρ) where
  drawn := Counted.drawn
  drawn_next _ _ _ := rfl

end Counted

/-! ### Loops of throws -/

variable {ρ : Type} [Roller ρ] [Tally ρ]

theorem Faces.drawn_draw (f : Faces) (r : ρ) :
  drawn (f.draw r).2 = drawn r + 1
  := drawn_next f.count f.count_pos r

/-- A roller has handed out an index for every die that it yields. -/
theorem Roller.Yields.drawn_add {r r' : ρ} {ds : List Die} (h : Roller.Yields r ds r') :
  drawn r' = drawn r + ds.length
  := by
  induction h with
  | nil r => rfl
  | @cons f r r' ds _ ih =>
    rw [f.drawn_draw] at ih
    rw [List.length_cons]
    omega

namespace Faces

theorem drawn_drawMany (f : Faces) (n : Nat) (r : ρ) :
  drawn (f.drawMany n r).2 = drawn r + n
  := by
  rw [(f.yields_drawMany n r).drawn_add, f.length_drawMany]

theorem drawn_drawUntil (f : Faces) (test : Number → Bool) (n : Nat) (r : ρ) :
  drawn (f.drawUntil test n r).2.2
    = drawn r + ((f.drawUntil test n r).1.length + (f.drawUntil test n r).2.1.toList.length)
  := by
  rw [(f.yields_drawUntil test n r).drawn_add, List.length_append]

end Faces

theorem drawn_redrawAll
    (how : Redraw) (test : Number → Bool) (vs : List Value) (n : Nat) (r : ρ) :
  drawn (redrawAll how test vs n r).2.2 = drawn r + (redrawAll how test vs n r).2.1
  := by
  rw [(yields_redrawAll how test vs n r).drawn_add, length_redrawDice]

/-! ### Runs of throws -/

/-- A run of throws that counts what it draws, and draws no more than its limit. -/
def Metes {α : Type} (run : Nat → ρ → Thrown α × ρ) : Prop :=
  ∀ limit r, 0 < limit →
    drawn (run limit r).2 = drawn r + (run limit r).1.count ∧ (run limit r).1.count ≤ limit

namespace Thrown

theorem many_metes (f : Faces) (requested : Nat) (label : String) :
  Metes (many f requested label : Nat → ρ → _)
  := by
  intro limit r _
  constructor
  · apply f.drawn_drawMany
  · apply Nat.min_le_right

theorem one_metes (f : Faces) (label : String) :
  Metes (one f label : Nat → ρ → _)
  := by
  intro limit r hlimit
  constructor
  · apply f.drawn_draw
  · exact hlimit

omit [Tally ρ] in
/-- The count is that of the misses and the hit. -/
theorem count_untilHit
    (f : Faces) (test : Number → Bool) (label : String) (limit : Nat) (r : ρ) :
  (untilHit f test label limit r).1.count
    = (f.drawUntil test limit r).1.length + (f.drawUntil test limit r).2.1.toList.length
  := by
  simp only [untilHit]
  rcases f.drawUntil test limit r with ⟨ds, _ | d, r⟩ <;> rfl

theorem untilHit_metes (f : Faces) (test : Number → Bool) (label : String) :
  Metes (untilHit f test label : Nat → ρ → _)
  := by
  intro limit r _
  have hroller : (untilHit f test label limit r).2 = (f.drawUntil test limit r).2.2 := by
    simp only [untilHit]
    rcases f.drawUntil test limit r with ⟨ds, _ | d, r⟩ <;> rfl
  rw [hroller, count_untilHit]
  constructor
  · apply f.drawn_drawUntil
  · apply f.length_drawUntil_le

theorem anew_metes (how : Redraw) (test : Number → Bool) (vs : List Value) (label : String) :
  Metes (anew how test vs label : Nat → ρ → _)
  := by
  intro limit r _
  constructor
  · apply drawn_redrawAll
  · apply thrown_redrawAll_le

/-- Handing on the result of a run changes neither its draws nor their count. -/
theorem metes_of_count
    {α β : Type} {run : Nat → ρ → Thrown α × ρ} (h : Metes run) (k : Thrown α → Thrown β)
    (hk : ∀ t, (k t).count = t.count) :
  Metes fun limit r => (k (run limit r).1, (run limit r).2)
  := by
  intro limit r hlimit
  simp only [hk]
  apply h limit r hlimit

end Thrown

namespace Call

/-- A throw from the faces of an operand metes its draws as the run does. -/
theorem metes_of_throwing
    {faces : Value} {run : Faces → Nat → ρ → Thrown Step.Result × ρ} (h : ∀ f, Metes (run f))
    {run' : Nat → ρ → Thrown Step.Result × ρ} (heq : throwing faces run = .ok (.throws run')) :
  Metes run'
  := by
  unfold throwing at heq
  cases hf : Faces.ofValue? faces with
  | none =>
    rw [hf] at heq
    cases heq
  | some f =>
    rw [hf] at heq
    cases heq
    apply h

theorem metes_of_rollEffect
    {count : Number} {faces : Value} {run : Nat → ρ → Thrown Step.Result × ρ}
    (heq : rollEffect count faces = .ok (.throws run)) :
  Metes run
  := by
  unfold rollEffect at heq
  by_cases hcount : count.toInt.toInt.toNat = 0
  · rw [if_pos hcount] at heq
    cases heq
  · rw [if_neg hcount] at heq
    apply metes_of_throwing _ heq
    intro f
    exact Thrown.metes_of_count (Thrown.many_metes f _ _) _ (fun _ => rfl)

theorem metes_of_rollOneEffect
    {faces : Value} {run : Nat → ρ → Thrown Step.Result × ρ}
    (heq : rollOneEffect faces = .ok (.throws run)) :
  Metes run
  := by
  apply metes_of_throwing _ heq
  intro f
  exact Thrown.metes_of_count (Thrown.one_metes f _) _ (fun _ => rfl)

theorem metes_of_untilEffect
    {faces : Value} {cmp : Comparator} {threshold : Number}
    {k : Thrown Parted → Thrown Step.Result} (hk : ∀ t, (k t).count = t.count)
    {run : Nat → ρ → Thrown Step.Result × ρ}
    (heq : untilEffect faces cmp threshold k = .ok (.throws run)) :
  Metes run
  := by
  apply metes_of_throwing _ heq
  intro f
  exact Thrown.metes_of_count (Thrown.untilHit_metes f _ _) k hk

theorem metes_of_redrawEffect
    {vs : List Value} {cmp : Comparator} {threshold : Number} {how : Redraw}
    {run : Nat → ρ → Thrown Step.Result × ρ}
    (heq : redrawEffect vs cmp threshold how = .throws run) :
  Metes run
  := by
  cases heq
  exact Thrown.metes_of_count (Thrown.anew_metes how _ vs _) _ (fun _ => rfl)

/-- Every call that throws dice metes its draws. -/
theorem metes_of_effect
    {c : Call} {run : Nat → ρ → Thrown Step.Result × ρ} (heq : c.effect = .ok (.throws run)) :
  Metes run
  := by
  cases c with
  | roll count faces => exact metes_of_rollEffect heq
  | rollOne faces => exact metes_of_rollOneEffect heq
  | rollUntil faces cmp threshold => exact metes_of_untilEffect (fun _ => rfl) heq
  | redraw vs cmp threshold how => exact metes_of_redrawEffect (Except.ok.inj heq)
  | apply op left right =>
    cases op with
    | roll => exact metes_of_rollEffect heq
    | rollUntil cmp => exact metes_of_untilEffect (fun _ => rfl) heq
    | redraw how cmp => exact metes_of_redrawEffect (Except.ok.inj heq)
    | ranked action rank => exact absurd heq (rankedEffect_ne_throws _ run)
    | filtered action cmp => cases action <;> cases heq
  | applyOne op operand =>
    cases op with
    | roll => exact metes_of_rollOneEffect heq
    | _ => cases heq

end Call

end Dice
