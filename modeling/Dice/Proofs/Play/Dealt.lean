import Dice.Proofs.History.Log
import Dice.Proofs.Roller.Yields

/-!
# The dice of a run

The dice of a call are those that it throws, in the order in which they are drawn; a call that
fails has none, and neither has a choice. The roller yields the dice of the calls of a run one
after another, and the history, if one is kept, shows them in the same order.
-/

namespace Dice

variable {ρ : Type} [Roller ρ]

/-- The dice that are thrown from the faces an operand stands for. -/
def diceFrom (faces : Value) (dice : Faces → List Die) : List Die :=
  match Faces.ofValue? faces with
  | none => []
  | some f => dice f

/-- The dice that a call throws from a roller, where it may throw `limit` of them. -/
def Call.dice (c : Call) (limit : Nat) (r : ρ) : List Die :=
  match c.throw? with
  | some (roll count faces) =>
    diceFrom faces fun f => (f.drawMany (min count.toInt.toInt.toNat limit) r).1
  | some (rollOne faces) => diceFrom faces fun f => (f.drawMany (min 1 limit) r).1
  | some (rollUntil faces cmp threshold) =>
    diceFrom faces fun f =>
      let (misses, hit, _) := f.drawUntil (cmp.holds · threshold) limit r
      misses ++ hit.toList
  | some (redraw vs cmp threshold how) => redrawDice how (cmp.holds · threshold) vs limit r
  | _ => []

/-- The dice that a call throws in the context in which it is made. -/
def Made.dice (m : Made ρ) : List Die :=
  m.call.dice m.here.allowance m.here.roller

/-- The dice that the run of a program throws, in the order in which they are drawn. -/
def Program.dice (p : Program ρ) (ctx : Context ρ) : List Die :=
  (p.calls ctx).flatMap Made.dice

/-! ### Runs of throws -/

/-- A run of throws draws some dice, which its entries show in their order. Where none may be thrown
there are none. -/
structure Thrown.Deals {α : Type} (dice : Nat → ρ → List Die) (run : Nat → ρ → Thrown α × ρ) :
    Prop where
  spent (r : ρ) : dice 0 r = []
  yields (limit : Nat) (r : ρ) : 0 < limit → Roller.Yields r (dice limit r) (run limit r).2
  shown (limit : Nat) (r : ρ) : 0 < limit →
    ((dice limit r).map Die.toValue).Sublist ((run limit r).1.entries.flatMap Entry.result)

namespace Thrown

variable (f : Faces) (test : Number → Bool) (label : String)

theorem many_deals (requested : Nat) :
  Deals (fun limit (r : ρ) => (f.drawMany (min requested limit) r).1) (many f requested label)
  where
  spent r := by
    rw [Nat.min_zero]
    rfl
  yields limit r _ := f.yields_drawMany _ r
  shown limit r _ := by
    simp only [many, List.flatMap_singleton]
    apply List.Sublist.refl

theorem one_deals :
  Deals (fun limit (r : ρ) => (f.drawMany (min 1 limit) r).1) (one f label)
  where
  spent r := rfl
  yields limit r hlimit := by
    rw [Nat.min_eq_left hlimit]
    exact f.yields_drawMany 1 r
  shown limit r hlimit := by
    rw [Nat.min_eq_left hlimit]
    apply List.Sublist.refl

theorem untilHit_deals :
  Deals
    (fun limit (r : ρ) =>
      let (misses, hit, _) := f.drawUntil test limit r
      misses ++ hit.toList)
    (untilHit f test label)
  where
  spent r := rfl
  yields limit r _ := by
    have hyields := f.yields_drawUntil test limit r
    simp only [untilHit]
    rcases hd : f.drawUntil test limit r with ⟨ds, _ | d, r'⟩ <;> rwa [hd] at hyields
  shown limit r _ := by
    simp only [untilHit]
    rcases f.drawUntil test limit r with ⟨ds, _ | d, r'⟩ <;> simp

theorem anew_deals (how : Redraw) (vs : List Value) :
  Deals (redrawDice how test vs : Nat → ρ → List Die) (anew how test vs label)
  where
  spent r := redrawDice_zero how test vs r
  yields limit r _ := yields_redrawAll how test vs limit r
  shown limit r _ := by
    simp only [anew, List.flatMap_singleton]
    apply sublist_redrawAll

/-- Handing on the result of a run changes neither its dice nor its entries. -/
theorem Deals.handed_on {α β : Type} {dice : Nat → ρ → List Die}
    {run : Nat → ρ → Thrown α × ρ} (h : Deals dice run) (k : Thrown α → Thrown β)
    (hk : ∀ t, (k t).entries = t.entries) :
  Deals dice fun limit r => (k (run limit r).1, (run limit r).2)
  where
  spent := h.spent
  yields := h.yields
  shown limit r hlimit := by
    simp only [hk]
    exact h.shown limit r hlimit

end Thrown

/-! ### Calls and runs -/

/-- From one context to another, the roller yields some dice, and the history shows them in their
order, if one is kept. -/
structure Context.Deals (ds : List Die) (ctx ctx' : Context ρ) : Prop where
  yields : Roller.Yields ctx.roller ds ctx'.roller
  shown : ∃ es, Context.Adds es ctx ctx' ∧ (ds.map Die.toValue).Sublist (es.flatMap Entry.result)

/-- Nothing is dealt where the roller and the history stay as they were. -/
theorem Context.deals_nil {ctx ctx' : Context ρ} (hroller : ctx'.roller = ctx.roller)
    (hhistory : ctx'.history = ctx.history) :
  Context.Deals [] ctx ctx'
  where
  yields := by
    rw [hroller]
    exact .nil _
  shown := ⟨[], Context.adds_nil hhistory, .slnil⟩

/-- What some calls deal are their dice, one call after another. -/
theorem tracks_dice :
  Tracks fun (ms : List (Made ρ)) ctx ctx' => Context.Deals (ms.flatMap Made.dice) ctx ctx'
  where
  scope _ _ := Context.deals_nil rfl rfl
  trans {ms ms' ctx₁ ctx₂ ctx₃} h h' := by
    obtain ⟨es, hadds, hshown⟩ := h.shown
    obtain ⟨es', hadds', hshown'⟩ := h'.shown
    rw [List.flatMap_append]
    constructor
    · exact h.yields.append h'.yields
    · refine ⟨es ++ es', hadds.trans hadds', ?_⟩
      rw [List.map_append, List.flatMap_append]
      exact hshown.append hshown'

namespace Call

theorem deals_of_refused {c : Call} {e : EvalError}
    (heffect : (c.effect : Except EvalError (Effect ρ)) = .error e) (ctx : Context ρ)
    (hdice : c.dice ctx.allowance ctx.roller = []) :
  Context.Deals (c.dice ctx.allowance ctx.roller) ctx (c.perform.after ctx)
  := by
  rw [hdice, perform_eq, heffect]
  exact Context.deals_nil rfl rfl

/-- A throw deals the dice of its run, unless the quota is spent. -/
theorem deals_of_throws {c : Call} {run : Nat → ρ → Thrown Step.Result × ρ}
    (heffect : c.effect = .ok (.throws run)) (h : Thrown.Deals c.dice run) (ctx : Context ρ) :
  Context.Deals (c.dice ctx.allowance ctx.roller) ctx (c.perform.after ctx)
  := by
  rw [perform_eq, heffect, Effect.playChecked, Effect.play, Play.after]
  by_cases hzero : ctx.allowance = 0
  · rw [Play.metered, if_pos hzero, hzero, h.spent]
    exact Context.deals_nil rfl rfl
  · have hpos := Nat.pos_of_ne_zero hzero
    rw [Play.metered_apply run hpos]
    constructor
    · exact h.yields _ _ hpos
    · refine ⟨_, ?_, h.shown _ _ hpos⟩
      simp [Context.Adds, Context.settle]

/-- A throw from the faces of an operand deals the dice of its run, unless the operand stands for
none or the quota is spent. -/
theorem deals_of_throwing {c : Call} {faces : Value}
    {run : Faces → Nat → ρ → Thrown Step.Result × ρ} {dice : Faces → Nat → ρ → List Die}
    (heffect : c.effect = throwing faces run)
    (hdice : (c.dice : Nat → ρ → List Die) = fun limit r => diceFrom faces (dice · limit r))
    (h : ∀ f, Thrown.Deals (dice f) (run f)) (ctx : Context ρ) :
  Context.Deals (c.dice ctx.allowance ctx.roller) ctx (c.perform.after ctx)
  := by
  unfold throwing at heffect
  unfold diceFrom at hdice
  cases hf : Faces.ofValue? faces with
  | none =>
    rw [hf] at heffect hdice
    apply deals_of_refused heffect
    rw [hdice]
  | some f =>
    rw [hf] at heffect hdice
    apply deals_of_throws heffect
    rw [hdice]
    exact h f

theorem deals_of_roll {c : Call} {count : Number} {faces : Value}
    (heffect : (c.effect : Except EvalError (Effect ρ)) = rollEffect count faces)
    (ht : c.throw? = some (roll count faces)) (ctx : Context ρ) :
  Context.Deals (c.dice ctx.allowance ctx.roller) ctx (c.perform.after ctx)
  := by
  have hdice : (c.dice : Nat → ρ → List Die) = fun limit r => diceFrom faces fun f =>
      (f.drawMany (min count.toInt.toInt.toNat limit) r).1 := by
    funext limit r
    rw [dice, ht]
  unfold rollEffect at heffect
  by_cases hcount : count.toInt.toInt.toNat = 0
  · apply deals_of_refused (heffect.trans (if_pos hcount))
    simp only [hdice, hcount, Nat.zero_min, diceFrom]
    split <;> rfl
  · apply deals_of_throwing (heffect.trans (if_neg hcount)) hdice
    intro f
    exact (Thrown.many_deals f _ _).handed_on _ fun _ => rfl

theorem deals_of_rollOne {c : Call} {faces : Value}
    (heffect : (c.effect : Except EvalError (Effect ρ)) = rollOneEffect faces)
    (ht : c.throw? = some (rollOne faces)) (ctx : Context ρ) :
  Context.Deals (c.dice ctx.allowance ctx.roller) ctx (c.perform.after ctx)
  := by
  apply deals_of_throwing heffect
  · funext limit r
    rw [dice, ht]
  · intro f
    exact (Thrown.one_deals f _).handed_on _ fun _ => rfl

theorem deals_of_rollUntil {c : Call} {faces : Value} {cmp : Comparator} {threshold : Number}
    {k : Thrown Parted → Thrown Step.Result}
    (heffect : (c.effect : Except EvalError (Effect ρ)) = untilEffect faces cmp threshold k)
    (hk : ∀ t, (k t).entries = t.entries)
    (ht : c.throw? = some (rollUntil faces cmp threshold)) (ctx : Context ρ) :
  Context.Deals (c.dice ctx.allowance ctx.roller) ctx (c.perform.after ctx)
  := by
  apply deals_of_throwing heffect
  · funext limit r
    rw [dice, ht]
  · intro f
    exact (Thrown.untilHit_deals f _ _).handed_on k hk

theorem deals_of_redraw {c : Call} {vs : List Value} {cmp : Comparator} {threshold : Number}
    {how : Redraw}
    (heffect : (c.effect : Except EvalError (Effect ρ)) = .ok (redrawEffect vs cmp threshold how))
    (ht : c.throw? = some (redraw vs cmp threshold how)) (ctx : Context ρ) :
  Context.Deals (c.dice ctx.allowance ctx.roller) ctx (c.perform.after ctx)
  := by
  have hdice : (c.dice : Nat → ρ → List Die) = redrawDice how (cmp.holds · threshold) vs := by
    funext limit r
    rw [dice, ht]
  apply deals_of_throws heffect
  rw [hdice]
  exact (Thrown.anew_deals _ _ how vs).handed_on _ fun _ => rfl

/-- Every call deals its dice. -/
theorem deals_dice (c : Call) (ctx : Context ρ) :
  Context.Deals (c.dice ctx.allowance ctx.roller) ctx (c.perform.after ctx)
  := by
  cases c with
  | roll count faces => exact deals_of_roll rfl rfl ctx
  | rollOne faces => exact deals_of_rollOne rfl rfl ctx
  | rollUntil faces cmp threshold => exact deals_of_rollUntil rfl (fun _ => rfl) rfl ctx
  | redraw vs cmp threshold how => exact deals_of_redraw rfl rfl ctx
  | apply op left right =>
    cases op with
    | roll => exact deals_of_roll rfl rfl ctx
    | rollUntil cmp => exact deals_of_rollUntil rfl (fun _ => rfl) rfl ctx
    | redraw how cmp => exact deals_of_redraw rfl rfl ctx
    | ranked action rank =>
      obtain ⟨scope, hafter⟩ := after_ranked action rank left right ctx
      rw [hafter]
      exact Context.deals_nil rfl rfl
    | filtered action cmp => cases action <;> exact Context.deals_nil rfl rfl
  | applyOne op operand =>
    cases op with
    | roll => exact deals_of_rollOne rfl rfl ctx
    | _ => exact deals_of_refused rfl ctx rfl

/-- Every call, as the only one on the way, deals its dice. -/
theorem deals_made (c : Call) (ctx : Context ρ) :
  Context.Deals ([(⟨c, ctx⟩ : Made ρ)].flatMap Made.dice) ctx (c.perform.after ctx)
  := by
  rw [List.flatMap_singleton]
  exact c.deals_dice ctx

end Call

/-- A run deals the dice of its calls. -/
theorem Program.run_deals (p : Program ρ) (ctx : Context ρ) :
  Context.Deals (p.dice ctx) ctx (p.run.after ctx)
  := tracks_dice.after_run Call.deals_made p ctx

end Dice
