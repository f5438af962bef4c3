import Dice.Proofs.Play.Trace
import Dice.Proofs.Quota.Truncation

/-!
# Entries of calls

A throw that succeeds is recorded under its operands with the list that it returns, and a run of
throws that has its hit with that die as well. A throw that fails and a choice are not recorded.
-/

namespace Dice

variable {ρ : Type} [Roller ρ]

/-! ### The dice of a run of throws -/

namespace Faces

variable (f : Faces) (test : Number → Bool)

/-- A run of throws draws its misses and then its hit. -/
theorem drawMany_drawUntil (n : Nat) (r : ρ) :
  (f.drawMany ((f.drawUntil test n r).1.length + (f.drawUntil test n r).2.1.toList.length) r).1
    = (f.drawUntil test n r).1 ++ (f.drawUntil test n r).2.1.toList
  := by
  induction n generalizing r with
  | zero => rfl
  | succ n ih =>
    by_cases hit : test (f.draw r).1.outcome
    · simp [drawUntil, drawMany, hit]
    · simp [drawUntil, drawMany, hit, ih, Nat.add_right_comm _ 1]

/-- The hit is the first of these dice that satisfies the test. -/
theorem find?_drawUntil (n : Nat) (r : ρ) :
  ((f.drawUntil test n r).1 ++ (f.drawUntil test n r).2.1.toList).find? (test ·.outcome)
    = (f.drawUntil test n r).2.1
  := by
  induction n generalizing r with
  | zero => rfl
  | succ n ih =>
    by_cases hit : test (f.draw r).1.outcome
    · simp [drawUntil, hit]
    · simp [drawUntil, hit, ih]

end Faces

namespace Call

/-! ### What is recorded -/

/-- The throw that a call makes, unless it is a choice or has an operand too few. -/
def throw? : Call → Option Call
  | apply .roll left right => some (roll left.total right)
  | apply (.rollUntil cmp) left right => some (rollUntil left cmp right.total)
  | apply (.redraw how cmp) left right => some (redraw left.elements cmp right.total how)
  | apply _ _ _ => none
  | applyOne .roll operand => some (rollOne operand)
  | applyOne _ _ => none
  | c => some c

/-- The operands of a throw, under which it is recorded. -/
def label : Call → String
  | roll count faces => count.text ++ "d" ++ faces.code
  | rollOne faces => "1d" ++ faces.code
  | rollUntil faces cmp threshold => faces.code ++ "u" ++ cmp.symbol ++ threshold.text
  | redraw vs cmp threshold how =>
    (Value.list vs).code ++ how.symbol ++ cmp.symbol ++ threshold.text
  | _ => ""

/-- The first of the dice that a run of throws draws to satisfy its comparison, if there is one. -/
def hit? (c : Call) (here : Context ρ) : Option Die :=
  match c with
  | rollUntil faces cmp threshold =>
    (Faces.ofValue? faces).bind fun f =>
      (f.drawMany (c.draws here) here.roller).1.find? (cmp.holds ·.outcome threshold)
  | _ => none

/-- The entries of a call: for a throw that succeeds the list that it returns, and then the hit, if
there is one. -/
def entries (c : Call) (here : Context ρ) : List Entry :=
  match c.throw?, c.perform.result here with
  | some t, .ok result =>
    ⟨t.label, (result.value?.map Value.elements).getD []⟩
      :: (t.hit? here).toList.map fun d => ⟨"Killed above roll:", [d.toValue]⟩
  | _, _ => []

/-! ### Recording -/

theorem entries_of_error {c : Call} {here : Context ρ} {e : EvalError}
    (h : c.perform.result here = .error e) :
  c.entries here = []
  := by
  rw [entries, h]
  split
  · contradiction
  · rfl

end Call

/-- From one context to another, the history grows by some entries, if one is kept. -/
def Context.Adds {ρ : Type} (es : List Entry) (ctx ctx' : Context ρ) : Prop :=
  ctx'.history = ctx.history.map (· ++ es.toArray)

namespace Context

omit [Roller ρ] in
theorem adds_nil {ctx ctx' : Context ρ} (h : ctx'.history = ctx.history) :
  Adds [] ctx ctx'
  := by
  rw [Adds, h]
  simp

end Context

namespace Call

/-- A call whose operands are refused records nothing. -/
theorem adds_of_refused {c : Call} {e : EvalError}
    (heffect : (c.effect : Except EvalError (Effect ρ)) = .error e) (ctx : Context ρ) :
  Context.Adds (c.entries ctx) ctx (c.perform.after ctx)
  := by
  have hperform : c.perform ctx = .error e ctx := by
    rw [perform_eq, heffect]
    rfl
  rw [entries_of_error (by rw [Play.result, hperform]), Play.after, hperform]
  exact Context.adds_nil rfl

/-- A throw records the entries of its run, unless the quota is spent. -/
theorem adds_of_throws {c t : Call} {run : Nat → ρ → Thrown Step.Result × ρ}
    (heffect : c.effect = .ok (.throws run)) (ht : c.throw? = some t) (ctx : Context ρ)
    (hentries : 1 ≤ ctx.allowance → (run ctx.allowance ctx.roller).1.entries
      = ⟨t.label, ((run ctx.allowance ctx.roller).1.result.value?.map Value.elements).getD []⟩
        :: (t.hit? ctx).toList.map fun d => ⟨"Killed above roll:", [d.toValue]⟩) :
  Context.Adds (c.entries ctx) ctx (c.perform.after ctx)
  := by
  have hperform : c.perform ctx = Play.metered run ctx := by
    rw [perform_eq, heffect]
    rfl
  by_cases hzero : ctx.allowance = 0
  · rw [Play.metered, if_pos hzero] at hperform
    rw [entries_of_error (by rw [Play.result, hperform]), Play.after, hperform]
    exact Context.adds_nil rfl
  · have hpos := Nat.pos_of_ne_zero hzero
    rw [Play.metered_apply run hpos] at hperform
    have hrecorded : c.entries ctx = (run ctx.allowance ctx.roller).1.entries := by
      rw [hentries hpos, entries, ht, Play.result, hperform]
    rw [hrecorded, Play.after, hperform, Context.Adds]
    simp [Context.settle]

/-- A throw from the faces of an operand records the entries of its run, unless the operand stands
for none or the quota is spent. -/
theorem adds_of_throwing {c t : Call} {faces : Value}
    {run : Faces → Nat → ρ → Thrown Step.Result × ρ}
    (heffect : c.effect = throwing faces run) (ht : c.throw? = some t) (ctx : Context ρ)
    (hentries : ∀ f, Faces.ofValue? faces = some f → 1 ≤ ctx.allowance →
      (run f ctx.allowance ctx.roller).1.entries
        = ⟨t.label,
            ((run f ctx.allowance ctx.roller).1.result.value?.map Value.elements).getD []⟩
          :: (t.hit? ctx).toList.map fun d => ⟨"Killed above roll:", [d.toValue]⟩) :
  Context.Adds (c.entries ctx) ctx (c.perform.after ctx)
  := by
  unfold throwing at heffect
  cases hf : Faces.ofValue? faces with
  | none =>
    rw [hf] at heffect
    exact adds_of_refused heffect ctx
  | some f =>
    rw [hf] at heffect
    exact adds_of_throws heffect ht ctx (hentries f hf)

theorem adds_of_roll {c : Call} {count : Number} {faces : Value}
    (heffect : (c.effect : Except EvalError (Effect ρ)) = rollEffect count faces)
    (ht : c.throw? = some (roll count faces)) (ctx : Context ρ) :
  Context.Adds (c.entries ctx) ctx (c.perform.after ctx)
  := by
  unfold rollEffect at heffect
  by_cases hcount : count.toInt.toInt.toNat = 0
  · exact adds_of_refused (heffect.trans (if_pos hcount)) ctx
  · apply adds_of_throwing (heffect.trans (if_neg hcount)) ht
    intro f _ _
    have hlabel : (roll count faces).label = .ofList (count.chars ++ 'd' :: faces.codeChars) := by
      simp [label, Number.text, Value.code, ← String.toList_inj]
    rw [hlabel]
    rfl

theorem adds_of_rollOne {c : Call} {faces : Value}
    (heffect : (c.effect : Except EvalError (Effect ρ)) = rollOneEffect faces)
    (ht : c.throw? = some (rollOne faces)) (ctx : Context ρ) :
  Context.Adds (c.entries ctx) ctx (c.perform.after ctx)
  := by
  apply adds_of_throwing heffect ht
  intro f _ _
  have hlabel : (rollOne faces).label = .ofList ('1' :: 'd' :: faces.codeChars) := by
    simp [label, Value.code, ← String.toList_inj]
  rw [hlabel]
  rfl

/-- The hit is recorded apart, also by an operator, which assigns it. -/
theorem adds_of_rollUntil {c : Call} {faces : Value} {cmp : Comparator} {threshold : Number}
    {k : Thrown Parted → Thrown Step.Result}
    (heffect : (c.effect : Except EvalError (Effect ρ)) = untilEffect faces cmp threshold k)
    (hentries : ∀ t, (k t).entries = t.entries)
    (hvalue : ∀ t, (k t).result.value? = some (.list t.result.value))
    (ht : c.throw? = some (rollUntil faces cmp threshold)) (ctx : Context ρ) :
  Context.Adds (c.entries ctx) ctx (c.perform.after ctx)
  := by
  apply adds_of_throwing heffect ht
  intro f hf hpos
  have hlabel : (rollUntil faces cmp threshold).label
      = .ofList (faces.codeChars ++ 'u' :: (cmp.symbol.toList ++ threshold.chars)) := by
    simp [label, Number.text, Value.code, ← String.toList_inj]
  have hhit : (rollUntil faces cmp threshold).hit? ctx
      = (f.drawUntil (cmp.holds · threshold) ctx.allowance ctx.roller).2.1 := by
    rw [hit?, hf, draws_rollUntil hf cmp threshold hpos, Option.bind_some,
      f.drawMany_drawUntil]
    apply f.find?_drawUntil (cmp.holds · threshold)
  rw [hlabel, hhit, hvalue, hentries]
  simp only [Thrown.untilHit]
  rcases f.drawUntil (cmp.holds · threshold) ctx.allowance ctx.roller with ⟨ds, _ | d, r⟩ <;> rfl

theorem adds_of_redraw {c : Call} {vs : List Value} {cmp : Comparator} {threshold : Number}
    {how : Redraw}
    (heffect : (c.effect : Except EvalError (Effect ρ)) = .ok (redrawEffect vs cmp threshold how))
    (ht : c.throw? = some (redraw vs cmp threshold how)) (ctx : Context ρ) :
  Context.Adds (c.entries ctx) ctx (c.perform.after ctx)
  := by
  apply adds_of_throws heffect ht
  intro _
  have hlabel : (redraw vs cmp threshold how).label
      = .ofList ((Value.list vs).codeChars ++ (how.symbol ++ cmp.symbol).toList
        ++ threshold.chars) := by
    simp [label, Number.text, Value.code, ← String.toList_inj]
  rw [hlabel]
  rfl

/-- Whatever a call comes to, the history grows by its entries. -/
theorem adds_entries (c : Call) (ctx : Context ρ) :
  Context.Adds (c.entries ctx) ctx (c.perform.after ctx)
  := by
  cases c with
  | roll count faces => exact adds_of_roll rfl rfl ctx
  | rollOne faces => exact adds_of_rollOne rfl rfl ctx
  | rollUntil faces cmp threshold =>
    exact adds_of_rollUntil rfl (fun _ => rfl) (fun _ => rfl) rfl ctx
  | redraw vs cmp threshold how => exact adds_of_redraw rfl rfl ctx
  | apply op left right =>
    cases op with
    | roll => exact adds_of_roll rfl rfl ctx
    | rollUntil cmp => exact adds_of_rollUntil rfl (fun _ => rfl) (fun _ => rfl) rfl ctx
    | redraw how cmp => exact adds_of_redraw rfl rfl ctx
    | ranked action rank =>
      obtain ⟨scope, hafter⟩ := after_ranked action rank left right ctx
      rw [hafter]
      exact Context.adds_nil rfl
    | filtered action cmp => cases action <;> exact Context.adds_nil rfl
  | applyOne op operand =>
    cases op with
    | roll => exact adds_of_rollOne rfl rfl ctx
    | _ => exact adds_of_refused rfl ctx

end Call

end Dice
