import Dice.Proofs.Play.Dealt
import Dice.Proofs.Play.Reach
import Dice.Proofs.Play.Replayed
import Dice.Proofs.Roller.Blind

/-!
# Runs with a replay

With a replay the dice of a run are known one by one: the indices of the list are handed out from
the first one on, over and over, and each die lands on the face that its index leaves. The position
of the replay is the number of dice that have been drawn, at every point of the run. A program that
does not see the roller comes to the same any number of rounds later.
-/

namespace Dice

/-! ### The dice of a replay -/

/-- The dice that a replay yields are those of its next positions, and it is left at the position
behind them. -/
theorem Roller.Yields.replay {r r' : Replay} {ds : List Die} (h : Roller.Yields r ds r') :
  r' = r.advance ds.length ∧ ∀ k d, ds[k]? = some d → d = r.die d.faces k
  := by
  induction h with
  | nil r =>
    constructor
    · rfl
    · intro k d hd
      cases hd
  | @cons f r r' ds _ ih =>
    obtain ⟨hroller, hdice⟩ := ih
    rw [f.draw_replay] at hroller hdice ⊢
    constructor
    · rw [hroller, Replay.advance_advance, List.length_cons, Nat.add_comm]
    · intro k d hd
      cases k with
      | zero =>
        cases hd
        rfl
      | succ k =>
        have hlater := hdice k d hd
        rwa [Replay.die_advance, Nat.add_comm] at hlater

/-- From its beginning a replay of the list `I` yields dice of which the `k`-th one has the outcome
of the face with the number `I[k mod len I]`, reduced to the faces it is thrown from. -/
theorem Roller.Yields.from_start {I : List Nat} {hI : I ≠ []} {r : Replay} {ds : List Die}
    (h : Roller.Yields ⟨I, hI, 0⟩ ds r) :
  r = ⟨I, hI, ds.length⟩
    ∧ ∀ k d, ds[k]? = some d →
      ∃ x, I[k % I.length]? = some x
        ∧ ∃ i : Fin d.faces.count, i.val = x % d.faces.count ∧ d.outcome = d.faces.outcome i
  := by
  obtain ⟨hroller, hdice⟩ := h.replay
  have hstart : ∀ n, (⟨I, hI, 0⟩ : Replay).advance n = ⟨I, hI, n⟩ := by
    intro n
    rw [Replay.advance, Nat.zero_add]
  rw [hstart] at hroller
  refine ⟨hroller, ?_⟩
  intro k d hd
  have hindex : I[k % I.length]? = some ((⟨I, hI, 0⟩ : Replay).advance k).current := by
    rw [hstart]
    apply List.getElem?_eq_getElem
  rw [hdice k d hd]
  exact ⟨_, hindex, _, rfl, rfl⟩

/-! ### Whole rounds -/

namespace Replay

/-- Whole rounds later the same index is handed out. -/
theorem current_advance_rounds (r : Replay) (rounds : Nat) :
  (r.advance (rounds * r.indices.length)).current = r.current
  := by
  simp only [current, advance, Nat.add_mul_mod_self_right]

/-- Going some rounds on changes nothing that is handed out. -/
theorem morphism_rounds (rounds : Nat) :
  Roller.Morphism fun r : Replay => r.advance (rounds * r.indices.length)
  where
  next_map n pos r := by
    apply Prod.ext
    · apply Fin.ext
      exact congrArg (· % n) (r.current_advance_rounds rounds)
    · change Replay.mk _ _ _ = Replay.mk _ _ _
      congr 1
      apply Nat.add_right_comm

end Replay

/-- Whole rounds later, a program that does not see the replay comes to the same, and so does each
of its calls. -/
theorem Program.blind_rounds (q : Program Unit) (rounds : Nat) (here : Context Replay) :
  let later := here.map (·.advance (rounds * here.roller.indices.length))
  q.blind.run.result later = q.blind.run.result here
    ∧ q.blind.run.after later
      = (q.blind.run.after here).map (·.advance (rounds * here.roller.indices.length))
    ∧ List.Forall₂
      (fun m m' => m'.call = m.call
        ∧ m'.call.perform.result m'.here = m.call.perform.result m.here)
      (q.blind.calls here) (q.blind.calls later)
  := by
  obtain ⟨hresult, hafter, hcalls⟩ := q.blind_map (Replay.morphism_rounds rounds) here
  refine ⟨hresult, ?_, hcalls⟩
  have hindices : (q.blind.run.after here).roller.indices = here.roller.indices := by
    rw [(q.blind.run_deals here).yields.replay.1]
    rfl
  apply hafter.trans
  rw [Context.map, Context.map, hindices]

/-! ### Runs -/

/-- With a replay that begins with the first index of the list `I`, the `k`-th die of a run, counted
from zero through all of its calls, has the outcome of the face with the number `I[k mod len I]`,
reduced to the faces it is thrown from. At every point of the run the position of the replay is the
number of dice drawn by the calls made on the way, with which the run begins, and so it is at the
end of the run. What the run adds to the history shows its dice in their order. A program that does
not see the replay comes to the same when this is any number of whole rounds further on: the same
result or error, the same context but for the position, and the same calls with the same results. -/
theorem Program.run_replay (I : List Nat) (hI : I ≠ []) (p : Program Replay) (ctx : Context Replay)
    (hctx : ctx.roller = ⟨I, hI, 0⟩) :
  (∀ k d, (p.dice ctx)[k]? = some d →
      ∃ x, I[k % I.length]? = some x
        ∧ ∃ i : Fin d.faces.count, i.val = x % d.faces.count ∧ d.outcome = d.faces.outcome i)
    ∧ (∀ q here, Reaches q here p ctx →
      ∃ ms, ReachesBy q here ms p ctx ∧ ms <+: p.calls ctx
        ∧ here.roller = ⟨I, hI, (ms.flatMap Made.dice).length⟩)
    ∧ (p.run.after ctx).roller = ⟨I, hI, (p.dice ctx).length⟩
    ∧ (∃ es, Context.Adds es ctx (p.run.after ctx)
      ∧ ((p.dice ctx).map Die.toValue).Sublist (es.flatMap Entry.result))
    ∧ ∀ (q : Program Unit) (start rounds : Nat) (here : Context Replay),
      here.roller = ⟨I, hI, start⟩ →
        let later := { here with roller := ⟨I, hI, start + rounds * I.length⟩ }
        q.blind.run.result later = q.blind.run.result here
          ∧ q.blind.run.after later
            = (q.blind.run.after here).map (·.advance (rounds * I.length))
          ∧ List.Forall₂
            (fun m m' => m'.call = m.call
              ∧ m'.call.perform.result m'.here = m.call.perform.result m.here)
            (q.blind.calls here) (q.blind.calls later)
  := by
  have hrun := p.run_deals ctx
  obtain ⟨hroller, hdice⟩ := (hctx ▸ hrun.yields).from_start
  refine ⟨hdice, ?_, hroller, hrun.shown, ?_⟩
  · intro q here hreaches
    obtain ⟨ms, hms⟩ := hreaches
    have hway := (tracks_dice.of_reachesBy Call.deals_made hms).yields
    exact ⟨ms, hms, hms.prefix_calls, (hctx ▸ hway).from_start.1⟩
  · intro q start rounds here hhere
    obtain ⟨roller, quota, history, scope⟩ := here
    cases hhere
    exact q.blind_rounds rounds ⟨⟨I, hI, start⟩, quota, history, scope⟩

/-- Two rounds in which sixes explode and the highest die is kept, with a throw between that is
refused, and then throws of a ten or a twenty until the twenty. -/
def Program.campaign : Program Unit :=
  .times (.int 2)
    (fun _ =>
      .call (.roll (.int 2) (.number (.int 6))) <| andThen fun dice =>
      .call (.apply (.redraw ⟨true, true⟩ .eq) dice (.number (.int 6))) <| andThen fun dice =>
      .call (.rollOne (.list [])) fun _ =>
      .call (.apply (.ranked .keep .highest) dice (.number (.int 1))) <| andThen fun kept =>
      .done (.ok kept))
    fun kept =>
      .call (.rollUntil (.list [.number (.int 20), .number (.int 10)]) .ge (.int 20)) fun _ =>
      .done (kept.map .list)

/-- The context in which the campaign begins. -/
def Context.ofCampaign : Context Replay :=
  (Context.start ⟨[5, 8, 14], by decide, 0⟩).withQuota (.fresh 2 8)

/-- Of the eight dice of the campaign the first six have six faces, and the last two have two. Six
dice later, which is two rounds of the replay, it comes to the same. -/
theorem Program.campaign_replay :
  Context.ofCampaign.roller = ⟨[5, 8, 14], by decide, 0⟩
    ∧ ((campaign.blind.dice .ofCampaign).map fun d => (d.outcome.toInt.toInt, d.faces.count))
      = [(6, 6), (3, 6), (3, 6), (6, 6), (3, 6), (3, 6), (10, 2), (20, 2)]
    ∧ (∀ k d, (campaign.blind.dice .ofCampaign)[k]? = some d →
      ∃ x, [5, 8, 14][k % 3]? = some x
        ∧ ∃ i : Fin d.faces.count, i.val = x % d.faces.count ∧ d.outcome = d.faces.outcome i)
    ∧ (campaign.blind.run.after .ofCampaign).roller.position = 8
    ∧ campaign.blind.run.result (Context.ofCampaign.map (·.advance 6))
      = campaign.blind.run.result .ofCampaign
  := by
  obtain ⟨hdice, -, hafter, -, hrounds⟩ :=
    run_replay [5, 8, 14] (by decide) campaign.blind .ofCampaign rfl
  have hshown : ((campaign.blind.dice .ofCampaign).map fun d =>
      (d.outcome.toInt.toInt, d.faces.count))
        = [(6, 6), (3, 6), (3, 6), (6, 6), (3, 6), (3, 6), (10, 2), (20, 2)] := by
    decide +kernel
  refine ⟨rfl, hshown, hdice, ?_, (hrounds campaign 0 2 .ofCampaign rfl).1⟩
  have hlength := congrArg List.length hshown
  rw [List.length_map] at hlength
  rw [hafter]
  exact hlength

end Dice
