import Dice.Proofs.Play.Reach
import Dice.Proofs.Quota.Tally
import Dice.Proofs.Roller.Morphism

/-!
# Quota accounting

A quota is charged exactly the dice that are drawn. Along every run of a program of calls, however
nested and however its calls fail, the dice charged are the indices drawn from the roller, they
never pass the limit of all calls, and no call draws more than its allowance.
-/

namespace Dice

open Tally

/-! ### Charging a quota -/

namespace Quota

/-- What is available is the limit of one call, as far as the limit of all calls leaves it. -/
theorem toNat_available (q : Quota) :
  q.available.toNat = min q.perCall.toNat (q.overall.toNat - q.used.toNat)
  := by
  rw [← toNat_saturatingSub, available]
  simp only [Min.min, UInt64.le_iff_toNat_le]
  split <;> rfl

/-- Dice within the limit of all calls are charged exactly. -/
theorem toNat_used_charge {q : Quota} {n : Nat} (h : q.used.toNat + n ≤ q.overall.toNat) :
  (q.charge (.ofNat n)).used.toNat = q.used.toNat + n
  := by
  have hoverall := q.overall.toNat_lt
  have hn : n < 2 ^ 64 := by omega
  simp only [charge, toNat_saturatingAdd, UInt64.toNat_ofNat_of_lt' hn, UInt64.size]
  omega

theorem charge_zero (q : Quota) :
  q.charge (.ofNat 0) = q
  := by
  have hused : saturatingAdd q.used (.ofNat 0) = q.used := by
    have hlt := q.used.toNat_lt
    rw [← UInt64.toNat_inj, toNat_saturatingAdd]
    change min (q.used.toNat + 0) (2 ^ 64 - 1) = _
    omega
  rw [charge, hused]

/-- What is charged one after another adds up. -/
theorem charge_charge (q : Quota) {m n : Nat} (h : m + n < UInt64.size) :
  (q.charge (.ofNat m)).charge (.ofNat n) = q.charge (.ofNat (m + n))
  := by
  have hm : m < UInt64.size := by omega
  have hn : n < UInt64.size := by omega
  have hused : saturatingAdd (saturatingAdd q.used (.ofNat m)) (.ofNat n)
      = saturatingAdd q.used (.ofNat (m + n)) := by
    rw [← UInt64.toNat_inj]
    simp only [toNat_saturatingAdd, UInt64.toNat_ofNat_of_lt' hm, UInt64.toNat_ofNat_of_lt' hn,
      UInt64.toNat_ofNat_of_lt' h]
    omega
  simp only [charge, hused]

/-- What is left after a charge within what is available. -/
theorem le_available_charge {q : Quota} {m n : Nat} (h : m + n ≤ q.available.toNat) (hm : 0 < m) :
  n ≤ (q.charge (.ofNat m)).available.toNat
  := by
  rw [toNat_available] at h ⊢
  rw [toNat_used_charge (by omega)]
  change n ≤ min q.perCall.toNat (q.overall.toNat - (q.used.toNat + m))
  omega

end Quota

variable {ρ : Type} [Roller ρ]

/-! ### Counting the draws of a run -/

/-- Counting the draws of a roller does not change what it hands out. -/
theorem Counted.morphism :
  Roller.Morphism (Counted.roller : Counted ρ → ρ)
  where
  next_map _ _ _ := rfl

/-- The context with a roller whose draws are counted from zero. -/
def Context.counted (ctx : Context ρ) : Context (Counted ρ) :=
  ctx.map (⟨·, 0⟩)

/-- The number of indices that a call draws from the roller. -/
def Call.draws (c : Call) (ctx : Context ρ) : Nat :=
  (c.perform.after ctx.counted).roller.drawn

/-- The number of indices that the run of a program draws from the roller. -/
def Program.draws (p : Program ρ) (ctx : Context ρ) : Nat :=
  ((p.comap Counted.roller).run.after ctx.counted).roller.drawn

/-- Counting the draws of a call changes nothing else. -/
theorem Call.after_counted (c : Call) (ctx : Context ρ) :
  (c.perform.after ctx.counted).map Counted.roller = c.perform.after ctx
  := ((Commutes.perform Counted.morphism c).after ctx.counted).symm

/-- Counting the draws of a run changes nothing else. -/
theorem Program.after_counted (p : Program ρ) (ctx : Context ρ) :
  ((p.comap Counted.roller).run.after ctx.counted).map Counted.roller = p.run.after ctx
  := ((Program.run_comap Counted.morphism p).after ctx.counted).symm

/-! ### Accounts of calls -/

section

variable [Tally ρ]

/-- A metered run of throws that metes its draws keeps the account, and draws no more than is
available. -/
theorem Play.metered_accounted
    {α : Type} {run : Nat → ρ → Thrown α × ρ} (hrun : Metes run) (ctx : Context ρ) {q : Quota}
    (hq : ctx.quota = some q) (hused : q.used ≤ q.overall) :
  ∃ used n, ((Play.metered run).after ctx).quota = some { q with used } ∧ used ≤ q.overall
    ∧ used.toNat = q.used.toNat + n
    ∧ drawn ((Play.metered run).after ctx).roller = drawn ctx.roller + n
    ∧ n ≤ min q.perCall.toNat (q.overall.toNat - q.used.toNat)
  := by
  have hallowance : ctx.allowance = q.available.toNat := by
    rw [Context.allowance, hq]
  by_cases hzero : ctx.allowance = 0
  · refine ⟨q.used, 0, ?_, hused, rfl, ?_, Nat.zero_le _⟩
    · rw [Play.after, Play.metered, if_pos hzero, hq]
    · rw [Play.after, Play.metered, if_pos hzero]
      rfl
  · obtain ⟨hdrawn, hcount⟩ := hrun ctx.allowance ctx.roller (Nat.pos_of_ne_zero hzero)
    rw [hallowance, q.toNat_available] at hcount
    rw [UInt64.le_iff_toNat_le] at hused
    have hcharge : q.used.toNat + (run ctx.allowance ctx.roller).1.count ≤ q.overall.toNat := by
      rw [hallowance, q.toNat_available]
      omega
    have hused' := Quota.toNat_used_charge hcharge
    refine ⟨_, (run ctx.allowance ctx.roller).1.count, ?_, ?_, hused', ?_, ?_⟩
    · rw [Play.after, Play.metered, if_neg hzero]
      simp only [Context.settle, hq]
      rfl
    · rw [UInt64.le_iff_toNat_le, hused']
      exact hcharge
    · rw [Play.after, Play.metered, if_neg hzero]
      exact hdrawn
    · rw [hallowance, q.toNat_available]
      exact hcount

/-- Every call keeps the account, and draws no more than is available. -/
theorem Call.perform_accounted
    (c : Call) (ctx : Context ρ) {q : Quota} (hq : ctx.quota = some q)
    (hused : q.used ≤ q.overall) :
  ∃ used n, (c.perform.after ctx).quota = some { q with used } ∧ used ≤ q.overall
    ∧ used.toNat = q.used.toNat + n
    ∧ drawn (c.perform.after ctx).roller = drawn ctx.roller + n
    ∧ n ≤ min q.perCall.toNat (q.overall.toNat - q.used.toNat)
  := by
  rw [Call.perform_eq]
  cases heffect : (c.effect : Except EvalError (Effect ρ)) with
  | error e => exact ⟨q.used, 0, hq, hused, rfl, rfl, Nat.zero_le _⟩
  | ok effect =>
    cases effect with
    | throws run => exact Play.metered_accounted (Call.metes_of_effect heffect) ctx hq hused
    | sets name parted => exact ⟨q.used, 0, hq, hused, rfl, rfl, Nat.zero_le _⟩

end

/-- Every call is charged what it draws, and draws no more than is available. -/
theorem Call.charges_draws
    (c : Call) (ctx : Context ρ) {q : Quota} (hq : ctx.quota = some q)
    (hused : q.used ≤ q.overall) :
  ∃ used, (c.perform.after ctx).quota = some { q with used } ∧ used ≤ q.overall
    ∧ used.toNat = q.used.toNat + c.draws ctx
    ∧ c.draws ctx ≤ min q.perCall.toNat (q.overall.toNat - q.used.toNat)
  := by
  obtain ⟨used, n, hquota, hle, hn, hdrawn, hbound⟩ := c.perform_accounted ctx.counted hq hused
  have hdraws : c.draws ctx = n := hdrawn.trans (Nat.zero_add n)
  rw [← c.after_counted ctx, hdraws]
  exact ⟨used, hquota, hle, hn, hbound⟩

/-! ### Accounts along runs -/

/-- From one context to another, the limits of a quota stay, and that of all calls is kept. -/
structure Limited (ctx ctx' : Context ρ) : Prop where
  quota (q : Quota) : ctx.quota = some q → q.used ≤ q.overall →
    ∃ used, ctx'.quota = some { q with used } ∧ used ≤ q.overall

omit [Roller ρ] in
/-- The limits are kept along runs if they are kept along calls. -/
theorem tracks_limited :
  Tracks fun _ => (Limited : Context ρ → Context ρ → Prop)
  where
  trans := by
    intro _ _ ctx₁ ctx₂ ctx₃ h₁ h₂
    constructor
    intro q hq hused
    obtain ⟨used, hquota, hle⟩ := h₁.quota q hq hused
    obtain ⟨used', hquota', hle'⟩ := h₂.quota _ hquota hle
    exact ⟨used', hquota', hle'⟩
  scope ctx scope := by
    constructor
    intro q hq hused
    exact ⟨q.used, hq, hused⟩

theorem Call.limited_after (c : Call) (ctx : Context ρ) :
  Limited ctx (c.perform.after ctx)
  := by
  constructor
  intro q hq hused
  obtain ⟨used, hquota, hle, _⟩ := c.charges_draws ctx hq hused
  exact ⟨used, hquota, hle⟩

/-- From one context to another, what is charged to a quota is what is drawn. -/
structure Accounted [Tally ρ] (ctx ctx' : Context ρ) : Prop where
  quota (q : Quota) : ctx.quota = some q → q.used ≤ q.overall →
    ∃ used n, ctx'.quota = some { q with used } ∧ used ≤ q.overall
      ∧ used.toNat = q.used.toNat + n ∧ drawn ctx'.roller = drawn ctx.roller + n

/-- The account is kept along runs if it is kept along calls. -/
theorem tracks_accounted [Tally ρ] :
  Tracks fun _ => (Accounted : Context ρ → Context ρ → Prop)
  where
  trans := by
    intro _ _ ctx₁ ctx₂ ctx₃ h₁ h₂
    constructor
    intro q hq hused
    obtain ⟨used, n, hquota, hle, hn, hdrawn⟩ := h₁.quota q hq hused
    obtain ⟨used', n', hquota', hle', hn', hdrawn'⟩ := h₂.quota _ hquota hle
    exact ⟨used', n + n', hquota', hle', by simp only at hn'; omega, by omega⟩
  scope ctx scope := by
    constructor
    intro q hq hused
    exact ⟨q.used, 0, hq, hused, rfl, rfl⟩

theorem Call.accounted_after [Tally ρ] (c : Call) (ctx : Context ρ) :
  Accounted ctx (c.perform.after ctx)
  := by
  constructor
  intro q hq hused
  obtain ⟨used, n, hquota, hle, hn, hdrawn, _⟩ := c.perform_accounted ctx hq hused
  exact ⟨used, n, hquota, hle, hn, hdrawn⟩

/-- At the end of every run, the dice charged to the quota are the indices drawn in the run, and
the limit of all calls is kept. It is also kept before and after each call that the run makes, and
the call draws, and is charged, no more than its own limit and what is left of that of all
calls. -/
theorem Program.run_charges_draws
    (p : Program ρ) (ctx : Context ρ) (q : Quota) (hq : ctx.quota = some q)
    (hused : q.used ≤ q.overall) :
  (∃ used, (p.run.after ctx).quota = some { q with used } ∧ used ≤ q.overall
      ∧ used.toNat = q.used.toNat + p.draws ctx)
    ∧ ∀ c here, Program.Makes c here p ctx →
        ∃ used used', here.quota = some { q with used } ∧ used ≤ q.overall
          ∧ (c.perform.after here).quota = some { q with used := used' } ∧ used' ≤ q.overall
          ∧ used'.toNat = used.toNat + c.draws here
          ∧ c.draws here ≤ min q.perCall.toNat (q.overall.toNat - used.toNat)
  := by
  constructor
  · have hrun :=
      tracks_accounted.after_run Call.accounted_after (p.comap Counted.roller) ctx.counted
    obtain ⟨used, n, hquota, hle, hn, hdrawn⟩ := hrun.quota q hq hused
    have hdraws : p.draws ctx = n := hdrawn.trans (Nat.zero_add n)
    rw [← p.after_counted ctx, hdraws]
    exact ⟨used, hquota, hle, hn⟩
  · intro c here hmakes
    have hhere := tracks_limited.of_makes Call.limited_after hmakes
    obtain ⟨used, hquota, hle⟩ := hhere.quota q hq hused
    obtain ⟨used', hquota', hle', hn, hbound⟩ := c.charges_draws here hquota hle
    exact ⟨used, used', hquota, hle, hquota', hle', hn, hbound⟩

/-- A repeat whose rounds throw three dice, make a call that is refused, and repeat the throw of
one die. It goes on after failures. -/
def Program.rounds : Program Replay :=
  .times (.int 2)
    (fun _ =>
      .call (.roll (.int 3) (.number (.int 6))) fun _ =>
      .call (.rollOne (.list [])) fun _ =>
      .times (.int 2)
        (fun _ => .call (.rollOne (.number (.int 6))) fun result =>
          .done (result.map fun _ => .number .zero))
        fun result => .done (result.map .list))
    fun result => .done (result.map .list)

/-- The context in which the rounds begin. -/
def Context.ofRounds : Context Replay :=
  (Context.start ⟨[3, 8], by decide, 0⟩).withQuota (.fresh 2 5)

/-- With two dice to a call and five in all, the second round finds one die left for its three, and
then none. -/
theorem Program.run_rounds :
  (Context.ofRounds.quota = some (.fresh 2 5) ∧ (Quota.fresh 2 5).used ≤ (Quota.fresh 2 5).overall)
    ∧ ∃ used, (rounds.run.after .ofRounds).quota = some { Quota.fresh 2 5 with used }
        ∧ used ≤ (Quota.fresh 2 5).overall ∧ used.toNat = 5 ∧ rounds.draws .ofRounds = 5
  := by
  constructor
  · decide
  · have h := (rounds.run_charges_draws .ofRounds (.fresh 2 5) rfl (by decide)).1
    obtain ⟨used, hquota, hle, hn⟩ := h
    have hdraws : rounds.draws .ofRounds = 5 := by decide +kernel
    rw [hdraws] at hn
    exact ⟨used, hquota, hle, hn, hdraws⟩

end Dice
