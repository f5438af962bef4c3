import Dice.Proofs.Operator.Confinement
import Dice.Proofs.Play.Replayed

/-!
# Blocks of a redraw

With a replay, a redraw comes to one block for each element. An element that does not satisfy the
comparison is a block of itself; one that does has its draws in its block, behind itself where
such elements stay. The draws of all blocks, one after another, are the dice of the replay from the
one at which the redraw begins, and they end with what the call may throw.
-/

namespace Dice

/-! ### Chains of dice -/

namespace Faces

variable (f : Faces) {test : Number → Bool} {r : Replay}

theorem drawWhile_again (n : Nat) (again : test (r.die f 0).outcome) :
  f.drawWhile test (n + 1) r
    = (r.die f 0 :: (f.drawWhile test n (r.advance 1)).1, (f.drawWhile test n (r.advance 1)).2)
  := if_pos again

theorem drawWhile_end (n : Nat) (again : ¬ test (r.die f 0).outcome) :
  f.drawWhile test (n + 1) r = ([r.die f 0], r.advance 1)
  := if_neg again

/-- The dice of a chain are the next ones of the replay. -/
theorem drawWhile_replay (test : Number → Bool) (n : Nat) (r : Replay) :
  (f.drawWhile test n r).1 = r.dice f (f.drawWhile test n r).1.length
    ∧ (f.drawWhile test n r).2 = r.advance (f.drawWhile test n r).1.length
  := by
  induction n generalizing r with
  | zero => exact ⟨rfl, rfl⟩
  | succ n ih =>
    by_cases again : test (r.die f 0).outcome
    · obtain ⟨hdice, hroller⟩ := ih (r.advance 1)
      rw [f.drawWhile_again n again, List.length_cons]
      constructor
      · rw [Replay.dice_succ, ← hdice]
      · rw [hroller, Replay.advance_advance, Nat.add_comm]
    · rw [f.drawWhile_end n again]
      exact ⟨rfl, rfl⟩

/-- A chain without a limit of zero has a die. -/
theorem length_drawWhile_pos (test : Number → Bool) {n : Nat} (hn : 0 < n) (r : Replay) :
  0 < (f.drawWhile test n r).1.length
  := by
  obtain ⟨n, rfl⟩ := Nat.exists_eq_succ_of_ne_zero (Nat.ne_of_gt hn)
  by_cases again : test (r.die f 0).outcome
  · rw [f.drawWhile_again n again]
    apply Nat.succ_pos
  · rw [f.drawWhile_end n again]
    apply Nat.succ_pos

/-- The dice of a chain satisfy the test up to the last one, and that one does only where the limit
ends the chain. -/
theorem drawWhile_chain {n : Nat} {ds : List Die} {d : Die}
    (h : (f.drawWhile test n r).1 = ds ++ [d]) :
  (∀ e ∈ ds, test e.outcome) ∧ (test d.outcome → (f.drawWhile test n r).1.length = n)
  := by
  induction n generalizing ds r with
  | zero => simp [drawWhile] at h
  | succ n ih =>
    by_cases again : test (r.die f 0).outcome
    · rw [f.drawWhile_again n again] at h ⊢
      cases ds with
      | nil =>
        obtain ⟨-, hnone⟩ := List.cons_eq_cons.1 h
        have hn : ¬ 0 < n := by
          intro hn
          have hpos := f.length_drawWhile_pos test hn (r.advance 1)
          rw [hnone] at hpos
          exact Nat.lt_irrefl 0 hpos
        constructor
        · simp
        · intro _
          rw [List.length_cons, hnone, Nat.eq_zero_of_not_pos hn]
          rfl
      | cons e ds =>
        obtain ⟨rfl, hrest⟩ := List.cons_eq_cons.1 h
        obtain ⟨hall, hlast⟩ := ih hrest
        constructor
        · exact List.forall_mem_cons.2 ⟨again, hall⟩
        · intro htest
          rw [List.length_cons, hlast htest]
    · rw [f.drawWhile_end n again] at h
      obtain ⟨rfl, hlast⟩ := List.append_eq_singleton_iff.1 h.symm |>.resolve_right (by simp)
      obtain ⟨rfl⟩ := List.singleton_inj.1 hlast
      constructor
      · simp
      · intro htest
        exact absurd htest again

end Faces

/-! ### Blocks -/

/-- An element of a redraw, and the dice that are thrown for it. -/
structure Block where
  element : Value
  draws : List Die

namespace Block

/-- What a block comes to. An element that does not satisfy the test stands alone. One that does
has its draws behind it, or in its place where it is not kept. -/
def values (how : Redraw) (test : Number → Bool) (b : Block) : List Value :=
  if test b.element.total then
    (if how.keeps then [b.element] else []) ++ b.draws.map Die.toValue
  else [b.element]

/-- The draws of a block are as the way to redraw has it, where `made` dice of the replay have been
thrown for the blocks before it, of `limit` in all. -/
structure Drawn (how : Redraw) (test : Number → Bool) (limit : Nat) (r : Replay) (made : Nat)
    (b : Block) : Prop where
  /-- The dice are the next ones of the replay, and have the faces of the element. -/
  dice : b.draws = (r.advance made).dice b.element.redrawFaces b.draws.length
  within : made + b.draws.length ≤ limit
  unmatched : ¬ test b.element.total → b.draws = []
  /-- Only where all dice are spent an element that satisfies the test has no draws. -/
  spent : test b.element.total → b.draws = [] → made = limit
  once : ¬ how.recursive → test b.element.total → made < limit → b.draws.length = 1
  /-- Draws that satisfy the test are drawn anew until the dice are spent. -/
  chain (ds : List Die) (d : Die) : how.recursive → b.draws = ds ++ [d] →
    (∀ e ∈ ds, test e.outcome) ∧ (test d.outcome → made + b.draws.length = limit)

/-- An element that does not satisfy the test has a block of itself. -/
theorem drawn_of_unmatched {how : Redraw} {test : Number → Bool} {limit : Nat} {v : Value}
    (hv : ¬ test v.total) {made : Nat} (h : made ≤ limit) (r : Replay) :
  Drawn how test limit r made ⟨v, []⟩
  where
  dice := rfl
  within := h
  unmatched _ := rfl
  spent hmatched := absurd hmatched hv
  once _ hmatched := absurd hmatched hv
  chain ds d _ hdraws := by simp at hdraws

/-- An element that satisfies the test has its chain of dice in its block. -/
theorem drawn_of_matched {how : Redraw} {test : Number → Bool} {limit : Nat} {v : Value}
    (hv : test v.total) {made : Nat} (h : made ≤ limit) (r : Replay) :
  Drawn how test limit r made ⟨v, (v.redrawn how test (limit - made) (r.advance made)).1⟩
  := by
  have hwithin : (v.redrawn how test (limit - made) (r.advance made)).1.length ≤ limit - made := by
    apply Faces.length_drawWhile_le
  constructor
  · exact (v.redrawFaces.drawWhile_replay _ _ _).1
  · exact Nat.add_le_of_le_sub' h hwithin
  · intro hnot
    exact absurd hv hnot
  · intro _ (hnone : (v.redrawn how test (limit - made) (r.advance made)).1 = [])
    by_contra hne
    have hleft : 0 < limit - made := by omega
    have hpos : 0 < (v.redrawn how test (limit - made) (r.advance made)).1.length :=
      v.redrawFaces.length_drawWhile_pos _ hleft _
    rw [hnone] at hpos
    exact Nat.lt_irrefl 0 hpos
  · intro hrecursive _ hless
    obtain ⟨n, hn⟩ := Nat.exists_eq_add_of_lt hless
    have hleft : limit - made = n + 1 := by omega
    have hend : ¬ (how.recursive && test ((r.advance made).die v.redrawFaces 0).outcome) := by
      simp [hrecursive]
    rw [Value.redrawn, hleft, v.redrawFaces.drawWhile_end n hend]
    rfl
  · intro ds d hrecursive hdraws
    obtain ⟨hall, hlast⟩ := v.redrawFaces.drawWhile_chain hdraws
    constructor
    · intro e he
      exact (Bool.and_eq_true_iff.1 (hall e he)).2
    · intro htest
      have hlength := hlast (Bool.and_eq_true_iff.2 ⟨hrecursive, htest⟩)
      exact (congrArg (made + ·) hlength).trans (Nat.add_sub_cancel' h)

/-- The first element of a redraw has its block, and the others are redrawn behind it. -/
theorem exists_cons (how : Redraw) (test : Number → Bool) (v : Value) (vs : List Value)
    {limit made : Nat} (h : made ≤ limit) (r : Replay) :
  ∃ b : Block, b.element = v ∧ b.Drawn how test limit r made
    ∧ redrawAll how test (v :: vs) (limit - made) (r.advance made)
      = let there := made + b.draws.length
        let rest := redrawAll how test vs (limit - there) (r.advance there)
        (b.values how test ++ rest.1, b.draws.length + rest.2.1, rest.2.2)
  := by
  by_cases hv : test v.total
  · refine ⟨_, rfl, drawn_of_matched hv h r, ?_⟩
    have hroller := (v.redrawFaces.drawWhile_replay (fun x => how.recursive && test x)
      (limit - made) (r.advance made)).2
    rw [Replay.advance_advance] at hroller
    change (v.redrawn how test (limit - made) (r.advance made)).2 = _ at hroller
    rw [redrawAll_cons how _ _ hv, hroller, Nat.sub_sub, values, if_pos hv]
    rfl
  · refine ⟨⟨v, []⟩, rfl, drawn_of_unmatched hv h r, ?_⟩
    rw [redrawAll, if_neg hv, values, if_neg hv]
    simp

end Block

namespace Block

variable {how : Redraw} {test : Number → Bool}

end Block

namespace Play

end Play

end Dice
