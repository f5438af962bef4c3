import Dice.Proofs.Choice.Breaking
import Dice.Proofs.Play.Call
import Dice.Roller.Replay

/-!
# Failures

A call fails in three ways: its operands are refused, it throws dice where an attached quota has
none left, or it is a choice that breaks off. Which operands are refused, and which choice breaks
off, depends on nothing but the operands. A failed call leaves the context as it was.
-/

namespace Dice

/-- The errors that lie in an operand. -/
def EvalError.ofOperand : EvalError → Prop
  | nonpositiveCount => True
  | die _ => True
  | negativeRepeat => True
  | needsTwoOperands _ => True
  | _ => False

/-- The values that stand for no faces: the empty list, and a number or a die below one. -/
def Value.Faceless : Value → Prop
  | .list vs => vs = []
  | v => v.total.toInt < 1

namespace Call

/-- The calls with operands that are refused. -/
def Refused : Call → Prop
  | roll count faces => count.toInt < 1 ∨ faces.Faceless
  | rollOne faces => faces.Faceless
  | rollUntil faces _ _ => faces.Faceless
  | redraw _ _ _ _ => False
  | apply .roll left right => left.total.toInt < 1 ∨ right.Faceless
  | apply (.rollUntil _) left _ => left.Faceless
  | apply _ _ _ => False
  | applyOne .roll operand => operand.Faceless
  | applyOne _ _ => True

/-- The calls that throw dice. -/
def Throws : Call → Prop
  | apply (.ranked _ _) _ _ => False
  | apply (.filtered _ _) _ _ => False
  | _ => True

/-- The calls that break off. -/
def BreaksOff : Call → Prop
  | apply (.ranked _ rank) left right =>
    Choice.BreaksOff rank right.total.toInt left.elements
  | _ => False

end Call

/-! ### Operands -/

/-- The truncated number is below one when no positive natural is equal to it. -/
theorem Number.toNat_toInt_eq_zero_iff (x : Number) :
  x.toInt.toInt.toNat = 0 ↔ x.toInt < 1
  := by
  rw [Int64.lt_iff_toInt_lt, Int64.toInt_one]
  omega

/-- The faceless values are those that stand for no faces. -/
theorem Faces.ofValue?_eq_none_iff (v : Value) :
  Faces.ofValue? v = none ↔ v.Faceless
  := by
  have hcount : ∀ n : Nat,
      (if pos : 0 < n then some (Faces.upTo n pos) else none) = none ↔ n = 0 := by
    intro n
    by_cases h : 0 < n
    · simp [h]
      omega
    · simp [h]
      omega
  cases v with
  | number x =>
    rw [Faces.ofValue?, hcount, Number.toNat_toInt_eq_zero_iff]
    rfl
    all_goals simp
  | list vs => cases vs <;> simp [Faces.ofValue?, Value.Faceless]
  | die x f =>
    rw [Faces.ofValue?, hcount, Number.toNat_toInt_eq_zero_iff]
    rfl
    all_goals simp

namespace Call

variable {ρ : Type} [Roller ρ]

/-! ### Effects -/

omit [Roller ρ] in
/-- A throw from a faceless operand is refused. -/
theorem throwing_of_faceless
    {faces : Value} (h : faces.Faceless)
    (run : Faces → Nat → ρ → Thrown Step.Result × ρ) :
  throwing faces run = .error (.die .noFaces)
  := by
  rw [throwing, (Faces.ofValue?_eq_none_iff faces).mpr h]

omit [Roller ρ] in
/-- A throw from any other operand is a run of throws. -/
theorem throwing_of_not_faceless
    {faces : Value} (h : ¬ faces.Faceless)
    (run : Faces → Nat → ρ → Thrown Step.Result × ρ) :
  ∃ run', throwing faces run = .ok (.throws run')
  := by
  cases hf : Faces.ofValue? faces with
  | none =>
    have hfaceless := (Faces.ofValue?_eq_none_iff faces).mp hf
    contradiction
  | some f =>
    use run f
    rw [throwing, hf]

/-- A roll of a count below one, or from a faceless operand, is refused. -/
theorem rollEffect_of_refused
    {count : Number} {faces : Value} (h : count.toInt < 1 ∨ faces.Faceless) :
  ∃ e, EvalError.ofOperand e ∧ (rollEffect count faces : Except _ (Effect ρ)) = .error e
  := by
  by_cases hcount : count.toInt < 1
  · use .nonpositiveCount, trivial
    rw [rollEffect, if_pos (count.toNat_toInt_eq_zero_iff.mpr hcount)]
  · use .die .noFaces, trivial
    rw [rollEffect, if_neg (fun h => hcount (count.toNat_toInt_eq_zero_iff.mp h))]
    apply throwing_of_faceless (h.resolve_left hcount)

/-- Any other roll is a run of throws. -/
theorem rollEffect_of_not_refused
    {count : Number} {faces : Value} (h : ¬ (count.toInt < 1 ∨ faces.Faceless)) :
  ∃ run, (rollEffect count faces : Except _ (Effect ρ)) = .ok (.throws run)
  := by
  obtain ⟨hcount, hfaces⟩ := not_or.mp h
  rw [rollEffect, if_neg (fun h => hcount (count.toNat_toInt_eq_zero_iff.mp h))]
  apply throwing_of_not_faceless hfaces

/-- A call with refused operands has an error that lies in an operand. -/
theorem effect_of_refused {c : Call} (h : c.Refused) :
  ∃ e, EvalError.ofOperand e ∧ (c.effect : Except _ (Effect ρ)) = .error e
  := by
  cases c with
  | roll count faces => apply rollEffect_of_refused h
  | rollOne faces => exact ⟨.die .noFaces, trivial, throwing_of_faceless h _⟩
  | rollUntil faces cmp threshold => exact ⟨.die .noFaces, trivial, throwing_of_faceless h _⟩
  | redraw vs cmp threshold how => cases h
  | apply op left right =>
    cases op with
    | roll => apply rollEffect_of_refused h
    | rollUntil cmp => exact ⟨.die .noFaces, trivial, throwing_of_faceless h _⟩
    | _ => cases h
  | applyOne op operand =>
    cases op with
    | roll => exact ⟨.die .noFaces, trivial, throwing_of_faceless h _⟩
    | _ => exact ⟨.needsTwoOperands _, trivial, rfl⟩

/-- A call that throws dice from operands that are not refused is a run of throws. -/
theorem effect_of_throws {c : Call} (h : ¬ c.Refused) (ht : c.Throws) :
  ∃ run, (c.effect : Except _ (Effect ρ)) = .ok (.throws run)
  := by
  cases c with
  | roll count faces => apply rollEffect_of_not_refused h
  | rollOne faces => apply throwing_of_not_faceless h
  | rollUntil faces cmp threshold => apply throwing_of_not_faceless h
  | redraw vs cmp threshold how => exact ⟨_, rfl⟩
  | apply op left right =>
    cases op with
    | roll => apply rollEffect_of_not_refused h
    | rollUntil cmp => apply throwing_of_not_faceless h
    | redraw how cmp => exact ⟨_, rfl⟩
    | ranked action rank => cases ht
    | filtered action cmp => cases ht
  | applyOne op operand =>
    cases op with
    | roll => apply throwing_of_not_faceless h
    | _ => exact absurd trivial h

/-- A call that breaks off has no effect. -/
theorem effect_of_breaksOff {c : Call} (h : c.BreaksOff) :
  (c.effect : Except _ (Effect ρ)) = .error .contradictoryOrder
  := by
  cases c with
  | apply op left right =>
    cases op with
    | ranked action rank =>
      have hnone := (Choice.byCount?_eq_none_iff action).2 h
      rw [effect, hnone, rankedEffect]
    | _ => cases h
  | _ => cases h

/-- A call that throws no dice and does not break off is an assignment. -/
theorem effect_of_not_throws {c : Call} (ht : ¬ c.Throws) (hb : ¬ c.BreaksOff) :
  ∃ name parted, (c.effect : Except _ (Effect ρ)) = .ok (.sets name parted)
  := by
  cases c with
  | apply op left right =>
    cases op with
    | ranked action rank =>
      have hsome := mt (Choice.byCount?_eq_none_iff action).1 hb
      obtain ⟨parted, hparted⟩ := Option.ne_none_iff_exists'.1 hsome
      use Scope.lastDropped, parted
      rw [effect, hparted, rankedEffect]
    | filtered action cmp => cases action <;> exact ⟨_, _, rfl⟩
    | _ => exact absurd trivial ht
  | _ => exact absurd trivial ht

/-- A call that breaks off is a choice by rank among many elements, of which some total is no number
or tangled with others. -/
theorem BreaksOff.ranked {c : Call} (h : c.BreaksOff) :
  ∃ action rank left right, c = .apply (.ranked action rank) left right
    ∧ 20 < left.elements.length
    ∧ ¬ (Choice.Numeric left.elements ∧ Number.Untangled (left.elements.map Value.total))
  := by
  cases c with
  | apply op left right =>
    cases op with
    | ranked action rank =>
      have hchoice : Choice.BreaksOff rank right.total.toInt left.elements := h
      exact ⟨action, rank, left, right, rfl, hchoice.length, hchoice.tangled⟩
    | _ => cases h
  | _ => cases h

theorem not_throws_of_breaksOff {c : Call} (h : c.BreaksOff) :
  ¬ c.Throws
  := by
  obtain ⟨action, rank, left, right, rfl, -⟩ := h.ranked
  exact fun ht => ht

theorem not_refused_of_breaksOff {c : Call} (h : c.BreaksOff) :
  ¬ c.Refused
  := by
  obtain ⟨action, rank, left, right, rfl, -⟩ := h.ranked
  exact fun hr => hr

/-! ### Failures -/

/-- A call with refused operands fails and leaves the context alone. -/
theorem perform_of_refused {c : Call} (h : c.Refused) (ctx : Context ρ) :
  ∃ e, EvalError.ofOperand e ∧ c.perform ctx = .error e ctx
  := by
  obtain ⟨e, he, heffect⟩ := effect_of_refused (ρ := ρ) h
  use e, he
  rw [perform_eq, heffect]
  rfl

/-- A call that throws dice where none are left fails and leaves the context alone. -/
theorem perform_of_exhausted
    {c : Call} (h : ¬ c.Refused) (ht : c.Throws) {ctx : Context ρ} (hzero : ctx.allowance = 0) :
  c.perform ctx = .error .quotaExhausted ctx
  := by
  obtain ⟨run, heffect⟩ := effect_of_throws (ρ := ρ) h ht
  rw [perform_eq, heffect, Effect.playChecked, Effect.play, Play.metered, if_pos hzero]

/-- A call that breaks off fails and leaves the context alone. -/
theorem perform_of_breaksOff {c : Call} (h : c.BreaksOff) (ctx : Context ρ) :
  c.perform ctx = .error .contradictoryOrder ctx
  := by
  rw [perform_eq, effect_of_breaksOff h]
  rfl

/-- Every other call succeeds. -/
theorem perform_of_allowed
    {c : Call} (h : ¬ c.Refused) (hb : ¬ c.BreaksOff) {ctx : Context ρ}
    (hallowed : c.Throws → ctx.allowance ≠ 0) :
  ∃ result ctx', c.perform ctx = .ok result ctx'
  := by
  by_cases ht : c.Throws
  · obtain ⟨run, heffect⟩ := effect_of_throws (ρ := ρ) h ht
    rw [perform_eq, heffect, Effect.playChecked, Effect.play, Play.metered, if_neg (hallowed ht)]
    exact ⟨_, _, rfl⟩
  · obtain ⟨name, parted, heffect⟩ := effect_of_not_throws (ρ := ρ) ht hb
    rw [perform_eq, heffect]
    exact ⟨_, _, rfl⟩

/-- A call fails as its operands are refused, as it breaks off or as nothing is left for its throws,
each time with the context as it was, or it succeeds. -/
theorem perform_cases (c : Call) (ctx : Context ρ) :
  (c.Refused ∧ ¬ c.BreaksOff ∧ ∃ e, EvalError.ofOperand e ∧ c.perform ctx = .error e ctx)
    ∨ (¬ c.Refused ∧ ¬ c.Throws ∧ c.BreaksOff ∧ c.perform ctx = .error .contradictoryOrder ctx)
    ∨ (¬ c.Refused ∧ ¬ c.BreaksOff ∧ (c.Throws ∧ ctx.allowance = 0)
      ∧ c.perform ctx = .error .quotaExhausted ctx)
    ∨ (¬ c.Refused ∧ ¬ c.BreaksOff ∧ ¬ (c.Throws ∧ ctx.allowance = 0)
      ∧ ∃ result there, c.perform ctx = .ok result there)
  := by
  by_cases hbreaks : c.BreaksOff
  · exact .inr (.inl ⟨not_refused_of_breaksOff hbreaks, not_throws_of_breaksOff hbreaks, hbreaks,
      perform_of_breaksOff hbreaks ctx⟩)
  · by_cases hrefused : c.Refused
    · exact .inl ⟨hrefused, hbreaks, perform_of_refused hrefused ctx⟩
    · by_cases hzero : c.Throws ∧ ctx.allowance = 0
      · exact .inr (.inr (.inl ⟨hrefused, hbreaks, hzero,
          perform_of_exhausted hrefused hzero.1 hzero.2⟩))
      · exact .inr (.inr (.inr ⟨hrefused, hbreaks, hzero,
          perform_of_allowed hrefused hbreaks fun ht hz => hzero ⟨ht, hz⟩⟩))

/-- A call fails by an error of its operands exactly where these are refused. Otherwise it fails
where it throws dice and a quota with nothing left is attached, and where it is a choice that breaks
off, exactly there and with no other error. Only a choice by rank among more than twenty elements
breaks off, of which some total is no number, or a double is equal to several integers. A call that
fails leaves the whole context as it was. -/
theorem perform_failure (c : Call) (ctx : Context ρ) :
  ((∃ e ctx', c.perform ctx = .error e ctx' ∧ e.ofOperand) ↔ c.Refused)
    ∧ (¬ c.Refused →
        ((∃ ctx', c.perform ctx = .error .quotaExhausted ctx')
          ↔ c.Throws ∧ ∃ q, ctx.quota = some q ∧ q.available = 0))
    ∧ ((∃ ctx', c.perform ctx = .error .contradictoryOrder ctx') ↔ c.BreaksOff)
    ∧ (c.BreaksOff →
        ∃ action rank left right, c = .apply (.ranked action rank) left right
          ∧ 20 < left.elements.length
          ∧ ¬ (Choice.Numeric left.elements
            ∧ Number.Untangled (left.elements.map Value.total)))
    ∧ (∀ e ctx', c.perform ctx = .error e ctx' →
        (e.ofOperand ∨ e = .quotaExhausted ∨ e = .contradictoryOrder) ∧ ctx' = ctx)
  := by
  rw [← Context.allowance_eq_zero_iff]
  rcases perform_cases c ctx with ⟨hrefused, hbreaks, e, he, hperform⟩
    | ⟨hrefused, hthrows, hbreaks, hperform⟩ | ⟨hrefused, hbreaks, hzero, hperform⟩
    | ⟨hrefused, hbreaks, hallowed, result, there, hperform⟩
  · have hcontradictory : e ≠ .contradictoryOrder := by
      rintro rfl
      exact he
    refine ⟨?_, ?_, ?_, BreaksOff.ranked, ?_⟩ <;>
      simp [hperform, hrefused, hbreaks, he, hcontradictory]
  · refine ⟨?_, ?_, ?_, BreaksOff.ranked, ?_⟩ <;>
      simp [hperform, hrefused, hbreaks, hthrows, EvalError.ofOperand]
  · refine ⟨?_, ?_, ?_, BreaksOff.ranked, ?_⟩ <;>
      simp [hperform, hrefused, hbreaks, hzero, EvalError.ofOperand]
  · refine ⟨?_, ?_, ?_, BreaksOff.ranked, ?_⟩ <;> simp [hperform, hrefused, hbreaks, hallowed]

/-- Keeping the lowest of zeros and ones in turn fails, where the total of a list in the midst of
them is no number. -/
theorem perform_crossed :
  ∃ ctx', (Call.apply (.ranked .keep .lowest) (.list Choice.crossed) (.number (.int 3))).perform
      (Context.start (⟨[0], by decide, 0⟩ : Replay))
    = .error .contradictoryOrder ctx'
  := by
  have hbreaks :
      (apply (.ranked .keep .lowest) (.list Choice.crossed) (.number (.int 3))).BreaksOff :=
    Choice.breaksOff_crossed
  exact ⟨_, perform_of_breaksOff hbreaks _⟩

end Call

end Dice
