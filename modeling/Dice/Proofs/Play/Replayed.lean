import Dice.Proofs.Quota.Truncation

/-!
# Calls with a replay

The dice that are thrown from a replay are known before the throw: they are those of its positions,
one after another, from the one at which the call begins. A call that throws some of them leaves
the replay at the position behind them, and is charged their number.
-/

namespace Dice

namespace Replay

/-- The replay some positions further on. -/
def advance (r : Replay) (n : Nat) : Replay :=
  { r with position := r.position + n }

/-- The die that lands some positions further on, with the faces it is thrown with. -/
def die (r : Replay) (f : Faces) (k : Nat) : Die :=
  .landed f ⟨(r.advance k).current % f.count, Nat.mod_lt _ f.count_pos⟩

/-- The dice that land at the next positions, with the faces they are thrown with. -/
def dice (r : Replay) (f : Faces) (n : Nat) : List Die :=
  (List.range n).map (r.die f)

theorem advance_advance (r : Replay) (j k : Nat) :
  (r.advance j).advance k = r.advance (j + k)
  := by
  simp only [advance, Nat.add_assoc]

theorem die_advance (r : Replay) (f : Faces) (j k : Nat) :
  (r.advance j).die f k = r.die f (j + k)
  := by
  simp only [die, advance_advance]

theorem dice_succ (r : Replay) (f : Faces) (n : Nat) :
  r.dice f (n + 1) = r.die f 0 :: (r.advance 1).dice f n
  := by
  rw [dice, List.range_succ_eq_map, List.map_cons, List.map_map, dice]
  congr 1
  apply List.map_congr_left
  intro k _
  rw [die_advance, Nat.add_comm]
  rfl

end Replay

/-- A throw takes the die of the present position. -/
theorem Faces.draw_replay (f : Faces) (r : Replay) :
  f.draw r = (r.die f 0, r.advance 1)
  := rfl

/-- From one context to another, a replay hands out some indices, which are charged to the quota,
if there is one. -/
structure Context.Advances (ctx : Context Replay) (n : Nat) (ctx' : Context Replay) : Prop where
  roller : ctx'.roller = ctx.roller.advance n
  quota (q : Quota) : ctx.quota = some q →
    ∃ used, ctx'.quota = some { q with used } ∧ used.toNat = q.used.toNat + n
  unlimited : ctx.quota = none → ctx'.quota = none

/-- Settling a run of throws that stays within the allowance advances the context by the dice
thrown. -/
theorem Context.advances_settle {α : Type} {ctx : Context Replay} (hpos : 1 ≤ ctx.allowance)
    {t : Thrown α} {n : Nat} (hcount : t.count = n) (hn : n ≤ ctx.allowance) :
  ctx.Advances n (ctx.settle t (ctx.roller.advance n))
  where
  roller := rfl
  quota q hq := by
    have hallowance : ctx.allowance = q.available.toNat := by
      rw [allowance, hq]
    rw [hallowance, q.toNat_available] at hpos hn
    use (q.charge (.ofNat n)).used
    constructor
    · rw [settle, hq, hcount]
      rfl
    · apply Quota.toNat_used_charge
      omega
  unlimited hnone := by
    rw [settle, hnone]
    rfl

end Dice
