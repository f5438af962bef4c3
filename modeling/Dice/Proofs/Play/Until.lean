import Dice.Proofs.Operator.Confinement
import Dice.Proofs.Play.Replayed

/-!
# Throws until a hit

With a replay, throws until a hit come to the dice before the first one that satisfies the
comparison, and set that one aside, if it is among the dice that the call may throw. Otherwise they
come to all these dice, and set zero aside.
-/

namespace Dice

/-! ### The first hit -/

/-- Dice that do not satisfy the test are misses, and the throws go on behind them. -/
theorem Faces.drawUntil_add (f : Faces) (test : Number → Bool) {k : Nat} (n : Nat) {r : Replay}
    (h : ∀ j < k, ¬ test (r.die f j).outcome) :
  f.drawUntil test (k + n) r
    = (r.dice f k ++ (f.drawUntil test n (r.advance k)).1,
      (f.drawUntil test n (r.advance k)).2)
  := by
  induction k generalizing r with
  | zero =>
    rw [Nat.zero_add]
    rfl
  | succ k ih =>
    have hmiss : ¬ test (r.die f 0).outcome := h 0 (Nat.succ_pos k)
    have hrest : ∀ j < k, ¬ test ((r.advance 1).die f j).outcome := by
      intro j hj
      rw [Replay.die_advance, Nat.add_comm]
      exact h (j + 1) (Nat.succ_lt_succ hj)
    rw [Nat.succ_add, drawUntil, draw_replay]
    simp only [if_neg hmiss, ih hrest, Replay.dice_succ, Replay.advance_advance, Nat.add_comm 1 k,
      List.cons_append]

/-- Throws end with the first die that satisfies the test. -/
theorem Faces.drawUntil_hit (f : Faces) (test : Number → Bool) {k n : Nat} (hk : k < n)
    {r : Replay} (hit : test (r.die f k).outcome) (h : ∀ j < k, ¬ test (r.die f j).outcome) :
  f.drawUntil test n r = (r.dice f k, some (r.die f k), r.advance (k + 1))
  := by
  obtain ⟨m, rfl⟩ := Nat.exists_eq_add_of_lt hk
  have hlast : (r.advance k).die f 0 = r.die f k := r.die_advance f k 0
  rw [Nat.add_assoc, f.drawUntil_add test (m + 1) h, drawUntil, draw_replay, hlast]
  simp only [if_pos hit, List.append_nil, Replay.advance_advance]

/-- Throws end with the limit where no die satisfies the test. -/
theorem Faces.drawUntil_miss (f : Faces) (test : Number → Bool) {n : Nat} {r : Replay}
    (h : ∀ j < n, ¬ test (r.die f j).outcome) :
  f.drawUntil test n r = (r.dice f n, none, r.advance n)
  := by
  have hadd := f.drawUntil_add test 0 h
  rw [Nat.add_zero] at hadd
  rw [hadd, drawUntil, List.append_nil]

/-- What a run of throws until a hit comes to, with the misses and the hit that are thrown. -/
theorem Thrown.untilHit_of_drawUntil {f : Faces} {test : Number → Bool} {limit : Nat}
    {r r' : Replay} {ds : List Die} {hit : Option Die} (label : String)
    (h : f.drawUntil test limit r = (ds, hit, r')) :
  ∃ t, untilHit f test label limit r = (t, r')
    ∧ t.result = ⟨ds.map Die.toValue, (hit.map Die.toValue).getD (.number .zero)⟩
    ∧ t.count = ds.length + hit.toList.length
  := by
  rw [untilHit, h]
  cases hit with
  | some d => exact ⟨_, rfl, rfl, rfl⟩
  | none => exact ⟨_, rfl, rfl, rfl⟩

namespace Play

/-- What the throws of a call come to that takes a number of dice from the replay: a list and what
is set aside. The operator gives the list, and the name of the last hit is then bound to what was
set aside, also when frames are left that did not bind it. -/
structure ComesTo (faces : Value) (cmp : Comparator) (threshold : Number) (ctx : Context Replay)
    (parted : Parted) (n : Nat) : Prop where
  call : ∃ ctx', rollUntil faces cmp threshold ctx = .ok parted ctx'
    ∧ ctx.Advances n ctx' ∧ ctx'.scope = ctx.scope
  operator (right : Value) : right.total = threshold →
    ∃ ctx', (Operator.rollUntil cmp).apply faces right ctx = .ok (.list parted.value) ctx'
      ∧ ctx.Advances n ctx'
      ∧ ∀ m, (∀ f ∈ ctx.scope.inner.take m, ¬ f.binds Scope.lastHit) →
        (Scope.pop^[m] ctx'.scope).get? Scope.lastHit = some parted.side

/-- The operator publishes what the call comes to. -/
theorem ComesTo.of_call
    {faces : Value} {cmp : Comparator} {threshold : Number} {ctx ctx' : Context Replay}
    {parted : Parted} {n : Nat}
    (hcall : rollUntil faces cmp threshold ctx = .ok parted ctx') (hadvances : ctx.Advances n ctx') :
  ComesTo faces cmp threshold ctx parted n
  := by
  have hscope := KeepsScope.rollUntil faces cmp threshold ctx parted ctx' hcall
  constructor
  · exact ⟨ctx', hcall, hadvances, hscope⟩
  · rintro right rfl
    have happly : (Operator.rollUntil cmp).apply faces right ctx
        = (rollUntil faces cmp right.total >>= Operator.publish Scope.lastHit) ctx := rfl
    rw [happly, bind_apply, hcall]
    refine ⟨_, Operator.publish_apply Scope.lastHit parted ctx', ?_, ?_⟩
    · exact ⟨hadvances.roller, hadvances.quota, hadvances.unlimited⟩
    · intro m hm
      rw [hscope]
      apply Scope.get?_pop_set m hm

/-- The call comes to the misses and the hit that are thrown within its allowance. -/
theorem ComesTo.of_drawUntil
    {faces : Value} {f : Faces} (hf : Faces.ofValue? faces = some f) {cmp : Comparator}
    {threshold : Number} {ctx : Context Replay} (hpos : 1 ≤ ctx.allowance) {ds : List Die}
    {hit : Option Die} {n : Nat}
    (h : f.drawUntil (cmp.holds · threshold) ctx.allowance ctx.roller
      = (ds, hit, ctx.roller.advance n))
    (hn : ds.length + hit.toList.length = n) :
  ComesTo faces cmp threshold ctx
    ⟨ds.map Die.toValue, (hit.map Die.toValue).getD (.number .zero)⟩ n
  := by
  have hcount : n ≤ ctx.allowance := by
    have hle := f.length_drawUntil_le (cmp.holds · threshold) ctx.allowance ctx.roller
    rw [h] at hle
    exact hn ▸ hle
  obtain ⟨t, ht, hresult, hthrown⟩ := Thrown.untilHit_of_drawUntil
    (.ofList (faces.codeChars ++ 'u' :: (cmp.symbol.toList ++ threshold.chars))) h
  have hcall : rollUntil faces cmp threshold ctx
      = .ok t.result (ctx.settle t (ctx.roller.advance n)) := by
    rw [rollUntil_eq, hf]
    simp only [metered_apply _ hpos, ht]
  rw [hresult] at hcall
  apply ComesTo.of_call hcall (Context.advances_settle hpos (hthrown.trans hn) hcount)

/-- Let `d k` be the die that a replay hands out for given faces, `k` dice after it begins. Throws
until a hit come to the dice before the first one that satisfies the comparison, and set it aside,
if the call may throw that many. Otherwise they come to all the dice that the call may throw, and
set zero aside. The dice thrown, with the hit, are those charged. -/
theorem rollUntil_replay
    {faces : Value} {f : Faces} (hf : Faces.ofValue? faces = some f) (cmp : Comparator)
    (threshold : Number) (ctx : Context Replay) (hpos : 1 ≤ ctx.allowance) :
  let d := ctx.roller.die f
  (∀ k < ctx.allowance, cmp.holds (d k).outcome threshold →
      (∀ j < k, ¬ cmp.holds (d j).outcome threshold) →
      ComesTo faces cmp threshold ctx
        ⟨(ctx.roller.dice f k).map Die.toValue, (d k).toValue⟩ (k + 1))
    ∧ ((∀ j < ctx.allowance, ¬ cmp.holds (d j).outcome threshold) →
      ComesTo faces cmp threshold ctx
        ⟨(ctx.roller.dice f ctx.allowance).map Die.toValue, .number .zero⟩ ctx.allowance)
  := by
  intro d
  constructor
  · intro k hk hit hmisses
    apply ComesTo.of_drawUntil hf hpos (f.drawUntil_hit _ hk hit hmisses)
    simp [Replay.dice]
  · intro hmisses
    apply ComesTo.of_drawUntil hf hpos (f.drawUntil_miss _ hmisses)
    simp [Replay.dice]

end Play

/-- A context in which a four and a six are thrown, and no more than two dice to a call. -/
def Context.ofFourAndSix : Context Replay :=
  (Context.start ⟨[1, 3, 5], by decide, 4⟩).withQuota (.fresh 2 9)

/-- A six is thrown as the last die that the call may throw, and is still set aside. -/
theorem Play.rollUntil_last :
  (Faces.ofValue? (.number (.int 6)) = some (.upTo 6 (by decide))
      ∧ 1 ≤ Context.ofFourAndSix.allowance)
    ∧ ComesTo (.number (.int 6)) .ge (.int 5) .ofFourAndSix
      ⟨[.die (.int 4) (.upTo 6 (by decide))], .die (.int 6) (.upTo 6 (by decide))⟩ 2
  := by
  have hfaces : Faces.ofValue? (.number (.int 6)) = some (.upTo 6 (by decide)) := rfl
  have hpos : 1 ≤ Context.ofFourAndSix.allowance := by decide
  refine ⟨⟨hfaces, hpos⟩, ?_⟩
  apply (rollUntil_replay hfaces .ge (.int 5) .ofFourAndSix hpos).1 1
  · decide
  · decide
  · decide

end Dice
