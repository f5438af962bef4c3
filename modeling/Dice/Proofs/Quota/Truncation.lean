import Dice.Proofs.Quota.Accounting
import Mathlib.Tactic.Common

/-!
# Truncation

The same call with the same roller, under two allowances, throws the same dice for as long as both
last. The smaller allowance cuts the call short and changes nothing else: a roll and the misses of a
run of throws end early, and a redraw leaves out dice and elements.
-/

namespace Dice

/-! ### Loops of throws -/

section

variable {ρ : Type} [Roller ρ]

namespace Faces

theorem drawMany_cut (f : Faces) {n m : Nat} (h : n ≤ m) (r : ρ) :
  (f.drawMany n r).1 <+: (f.drawMany m r).1
  := by
  induction n generalizing m r with
  | zero => apply List.nil_prefix
  | succ n ih =>
    obtain ⟨m, rfl⟩ := Nat.exists_eq_succ_of_ne_zero (Nat.ne_zero_of_lt h)
    simp only [drawMany]
    apply (List.prefix_cons_inj _).2
    apply ih (Nat.le_of_succ_le_succ h)

/-- The throws until a hit, as far as a smaller limit goes. -/
theorem drawUntil_cut (f : Faces) (test : Number → Bool) {n m : Nat} (h : n ≤ m) (r : ρ) :
  (f.drawUntil test n r).1 <+: (f.drawUntil test m r).1
    ∧ (f.drawUntil test n r).1.length + (f.drawUntil test n r).2.1.toList.length
      = min n ((f.drawUntil test m r).1.length + (f.drawUntil test m r).2.1.toList.length)
    ∧ ((f.drawUntil test n r).2.1.isSome → f.drawUntil test n r = f.drawUntil test m r)
  := by
  induction n generalizing m r with
  | zero =>
    refine ⟨List.nil_prefix, (Nat.zero_min _).symm, ?_⟩
    intro hsome
    cases hsome
  | succ n ih =>
    obtain ⟨m, rfl⟩ := Nat.exists_eq_succ_of_ne_zero (Nat.ne_zero_of_lt h)
    rcases hd : f.draw r with ⟨d, r₁⟩
    by_cases hit : test d.outcome
    · simp [drawUntil, hd, hit]
    · obtain ⟨hfront, hcount, heq⟩ := ih (Nat.le_of_succ_le_succ h) r₁
      rcases hn : f.drawUntil test n r₁ with ⟨ds, found, r₂⟩
      rcases hm : f.drawUntil test m r₁ with ⟨ds', found', r₃⟩
      rw [hn, hm] at hfront hcount heq
      simp only [drawUntil, hd, hit, Bool.false_eq_true, if_false, hn, hm, List.length_cons]
        at hcount heq ⊢
      refine ⟨(List.prefix_cons_inj _).2 hfront, by omega, ?_⟩
      intro hsome
      cases heq hsome
      rfl

/-- The throws for as long as a test holds, as far as a smaller limit goes. Those that stay within
the smaller limit are the same. -/
theorem drawWhile_cut (f : Faces) (test : Number → Bool) {n m : Nat} (h : n ≤ m) (r : ρ) :
  (f.drawWhile test n r).1 <+: (f.drawWhile test m r).1
    ∧ (f.drawWhile test n r).1.length = min n (f.drawWhile test m r).1.length
    ∧ ((f.drawWhile test m r).1.length ≤ n → f.drawWhile test n r = f.drawWhile test m r)
  := by
  induction n generalizing m r with
  | zero =>
    refine ⟨List.nil_prefix, (Nat.zero_min _).symm, ?_⟩
    intro hzero
    cases m with
    | zero => rfl
    | succ m =>
      by_cases again : test (f.draw r).1.outcome
      · simp [drawWhile, again] at hzero
      · simp [drawWhile, again] at hzero
  | succ n ih =>
    obtain ⟨m, rfl⟩ := Nat.exists_eq_succ_of_ne_zero (Nat.ne_zero_of_lt h)
    by_cases again : test (f.draw r).1.outcome
    · obtain ⟨hfront, hlength, heq⟩ := ih (Nat.le_of_succ_le_succ h) (f.draw r).2
      simp only [drawWhile, again, if_true, List.length_cons]
      refine ⟨(List.prefix_cons_inj _).2 hfront, by omega, ?_⟩
      intro hle
      rw [heq (Nat.le_of_succ_le_succ hle)]
    · simp [drawWhile, again]

end Faces

/-- An element that satisfies the test is followed by the dice thrown for it. -/
theorem redrawAll_cons
    (how : Redraw) {test : Number → Bool} {v : Value} {vs : List Value} (n : Nat) (r : ρ)
    (hit : test v.total) :
  redrawAll how test (v :: vs) n r
    = ((if how.keeps then [v] else []) ++ (v.redrawn how test n r).1.map Die.toValue
          ++ (redrawAll how test vs (n - (v.redrawn how test n r).1.length)
            (v.redrawn how test n r).2).1,
        (v.redrawn how test n r).1.length
          + (redrawAll how test vs (n - (v.redrawn how test n r).1.length)
            (v.redrawn how test n r).2).2.1,
        (redrawAll how test vs (n - (v.redrawn how test n r).1.length)
          (v.redrawn how test n r).2).2.2)
  := by
  simp only [redrawAll, hit, if_true]

/-- A redraw without dice leaves out what a redraw with some of them throws, from whichever state of
the roller. -/
theorem redrawAll_zero_sublist
    (how : Redraw) (test : Number → Bool) (vs : List Value) (n : Nat) (r r' : ρ) :
  (redrawAll how test vs 0 r).1.Sublist (redrawAll how test vs n r').1
  := by
  induction vs generalizing n r r' with
  | nil => apply List.Sublist.refl
  | cons v vs ih =>
    by_cases hit : test v.total
    · have hnone : v.redrawn how test 0 r = ([], r) := rfl
      rw [redrawAll_cons how 0 r hit, redrawAll_cons how n r' hit, hnone]
      apply List.Sublist.append
      · apply (List.nil_sublist _).append_left
      · apply ih
    · simp only [redrawAll, hit, Bool.false_eq_true, if_false]
      apply (ih n r r').cons_cons

/-- The throws of a redraw, as far as a smaller limit goes. What is not thrown is left out, and a
redraw that stays within the smaller limit is the same. -/
theorem redrawAll_cut
    (how : Redraw) (test : Number → Bool) (vs : List Value) {n m : Nat} (h : n ≤ m) (r : ρ) :
  (redrawAll how test vs n r).1.Sublist (redrawAll how test vs m r).1
    ∧ (redrawAll how test vs n r).2.1 = min n (redrawAll how test vs m r).2.1
    ∧ ((redrawAll how test vs m r).2.1 ≤ n → redrawAll how test vs n r = redrawAll how test vs m r)
  := by
  induction vs generalizing n m r with
  | nil =>
    refine ⟨List.Sublist.refl _, (Nat.min_zero n).symm, ?_⟩
    intro _
    rfl
  | cons v vs ih =>
    by_cases hit : test v.total
    · obtain ⟨hfront, hlength, heq⟩ :=
        v.redrawFaces.drawWhile_cut (fun x => how.recursive && test x) h r
      change (v.redrawn how test n r).1 <+: (v.redrawn how test m r).1 at hfront
      change (v.redrawn how test n r).1.length = min n (v.redrawn how test m r).1.length at hlength
      change (v.redrawn how test m r).1.length ≤ n →
        v.redrawn how test n r = v.redrawn how test m r at heq
      by_cases hwithin : (v.redrawn how test m r).1.length ≤ n
      · -- Both throw the same dice for the element, and go on with the same roller.
        rw [redrawAll_cons how n r hit, redrawAll_cons how m r hit, heq hwithin]
        rcases hds : v.redrawn how test m r with ⟨ds, r₁⟩
        rw [hds] at hwithin
        obtain ⟨hsublist, hthrown, hrest⟩ := ih (Nat.sub_le_sub_right h ds.length) r₁
        refine ⟨hsublist.append_left _, by simp only at hwithin ⊢; omega, ?_⟩
        intro hle
        rw [hrest (Nat.le_sub_of_add_le' hle)]
      · -- The smaller limit is spent on the element: no dice are left for those behind it.
        have hspent : (v.redrawn how test n r).1.length = n := by omega
        have hnone := thrown_redrawAll_le how test vs 0 (v.redrawn how test n r).2
        rw [redrawAll_cons how n r hit, redrawAll_cons how m r hit, hspent, Nat.sub_self]
        refine ⟨?_, by simp only; omega, ?_⟩
        · apply List.Sublist.append
          · apply (hfront.map Die.toValue).sublist.append_left
          · apply redrawAll_zero_sublist
        · intro hle
          simp only at hle
          omega
    · obtain ⟨hsublist, hthrown, heq⟩ := ih h r
      rcases hn : redrawAll how test vs n r with ⟨ws, thrown, r₁⟩
      rcases hm : redrawAll how test vs m r with ⟨us, thrown', r₂⟩
      rw [hn, hm] at hsublist hthrown heq
      simp only [redrawAll, hit, Bool.false_eq_true, if_false, hn, hm]
      refine ⟨hsublist.cons_cons v, hthrown, ?_⟩
      intro hle
      cases heq hle
      rfl

end

/-! ### Pairs of calls -/

/-- Two outcomes of a call: the same error, or results in a relation. -/
inductive Paired {ρ α : Type} (R : α → α → Prop) :
    EStateM.Result EvalError (Context ρ) α → EStateM.Result EvalError (Context ρ) α → Prop
  | ok {a b : α} (ctx ctx' : Context ρ) : R a b → Paired R (.ok a ctx) (.ok b ctx')
  | error (e : EvalError) (ctx ctx' : Context ρ) : Paired R (.error e ctx) (.error e ctx')

variable {ρ α : Type}

theorem Play.metered_apply (run : Nat → ρ → Thrown α × ρ) {ctx : Context ρ}
    (hpos : 1 ≤ ctx.allowance) :
  Play.metered run ctx
    = .ok (run ctx.allowance ctx.roller).1.result
        (ctx.settle (run ctx.allowance ctx.roller).1 (run ctx.allowance ctx.roller).2)
  := if_neg (Nat.ne_of_gt hpos)

/-- Two metered runs of throws with dice left and the same roller are paired as their results
are. -/
theorem Paired.metered
    {R : α → α → Prop} (run : Nat → ρ → Thrown α × ρ) {ctx₁ ctx₂ : Context ρ}
    (hroller : ctx₁.roller = ctx₂.roller) (hpos : 1 ≤ ctx₁.allowance)
    (hle : ctx₁.allowance ≤ ctx₂.allowance)
    (h : R (run ctx₁.allowance ctx₁.roller).1.result (run ctx₂.allowance ctx₁.roller).1.result) :
  Paired R (Play.metered run ctx₁) (Play.metered run ctx₂)
  := by
  rw [Play.metered_apply run hpos, Play.metered_apply run (Nat.le_trans hpos hle), ← hroller]
  apply Paired.ok _ _ h

namespace Call

variable [Roller ρ]

/-- A call whose operands are refused draws nothing. -/
theorem draws_of_refused {c : Call} {e : EvalError}
    (h : (c.effect : Except EvalError (Effect (Counted ρ))) = .error e) (ctx : Context ρ) :
  c.draws ctx = 0
  := by
  rw [draws, perform_eq, h]
  rfl

/-- A call with dice left draws what its run of throws counts. -/
theorem draws_of_throws {c : Call} {run : Nat → Counted ρ → Thrown Step.Result × Counted ρ}
    (h : c.effect = .ok (.throws run)) {ctx : Context ρ} (hpos : 1 ≤ ctx.allowance) :
  c.draws ctx = (run ctx.allowance ⟨ctx.roller, 0⟩).1.count
  := by
  have hallowance : ctx.counted.allowance = ctx.allowance := rfl
  obtain ⟨hdrawn, -⟩ := metes_of_effect h ctx.allowance ⟨ctx.roller, 0⟩ hpos
  rw [draws, perform_eq, h, Effect.playChecked, Effect.play, Play.after,
    Play.metered_apply run (hallowance ▸ hpos)]
  exact hdrawn.trans (Nat.zero_add _)

theorem draws_roll (count : Number) {faces : Value} {f : Faces} (hf : Faces.ofValue? faces = some f)
    (hcount : count.toInt.toInt.toNat ≠ 0) {ctx : Context ρ} (hpos : 1 ≤ ctx.allowance) :
  (roll count faces).draws ctx = min count.toInt.toInt.toNat ctx.allowance
  := by
  have heffect : (effect (roll count faces) : Except EvalError (Effect (Counted ρ)))
      = throwing faces _ := if_neg hcount
  rw [throwing, hf] at heffect
  rw [draws_of_throws heffect hpos]
  rfl

theorem draws_rollUntil {faces : Value} {f : Faces} (hf : Faces.ofValue? faces = some f)
    (cmp : Comparator) (threshold : Number) {ctx : Context ρ} (hpos : 1 ≤ ctx.allowance) :
  (rollUntil faces cmp threshold).draws ctx
    = (f.drawUntil (cmp.holds · threshold) ctx.allowance ctx.roller).1.length
      + (f.drawUntil (cmp.holds · threshold) ctx.allowance ctx.roller).2.1.toList.length
  := by
  have heffect : (effect (rollUntil faces cmp threshold) : Except EvalError (Effect (Counted ρ)))
      = throwing faces _ := rfl
  have hmap := f.drawUntil_map Counted.morphism (cmp.holds · threshold) ctx.allowance
    (⟨ctx.roller, 0⟩ : Counted ρ)
  rw [throwing, hf] at heffect
  rw [draws_of_throws heffect hpos, hmap]
  apply Thrown.count_untilHit

theorem draws_redraw (vs : List Value) (cmp : Comparator) (threshold : Number) (how : Redraw)
    {ctx : Context ρ} (hpos : 1 ≤ ctx.allowance) :
  (redraw vs cmp threshold how).draws ctx
    = (redrawAll how (cmp.holds · threshold) vs ctx.allowance ctx.roller).2.1
  := by
  have heffect : (effect (redraw vs cmp threshold how) : Except EvalError (Effect (Counted ρ)))
      = .ok (redrawEffect vs cmp threshold how) := rfl
  have hmap := redrawAll_map Counted.morphism how (cmp.holds · threshold) vs ctx.allowance
    (⟨ctx.roller, 0⟩ : Counted ρ)
  rw [draws_of_throws heffect hpos, hmap]
  rfl

end Call

/-! ### Calls under two allowances -/

namespace Play

variable [Roller ρ] {ctx₁ ctx₂ : Context ρ} (hroller : ctx₁.roller = ctx₂.roller)
  (hpos : 1 ≤ ctx₁.allowance) (hle : ctx₁.allowance ≤ ctx₂.allowance)

include hroller hpos hle

theorem roll_cut (count : Number) (faces : Value) :
  Paired (· <+: ·) (roll count faces ctx₁) (roll count faces ctx₂)
    ∧ (Call.roll count faces).draws ctx₁
      = min ctx₁.allowance ((Call.roll count faces).draws ctx₂)
  := by
  by_cases hcount : count.toInt.toInt.toNat = 0
  · have hrefused : ((Call.roll count faces).effect : Except EvalError (Effect (Counted ρ)))
        = .error .nonpositiveCount := if_pos hcount
    rw [roll_eq, if_pos hcount, Call.draws_of_refused hrefused, Call.draws_of_refused hrefused]
    exact ⟨.error _ _ _, (Nat.min_zero _).symm⟩
  · cases hf : Faces.ofValue? faces with
    | none =>
      have hrefused : ((Call.roll count faces).effect : Except EvalError (Effect (Counted ρ)))
          = .error (.die .noFaces) := by
        rw [Call.effect, Call.rollEffect, if_neg hcount, Call.throwing, hf]
      rw [roll_eq, if_neg hcount, hf, Call.draws_of_refused hrefused,
        Call.draws_of_refused hrefused]
      exact ⟨.error _ _ _, (Nat.min_zero _).symm⟩
    | some f =>
      rw [roll_eq, if_neg hcount, hf, Call.draws_roll count hf hcount hpos,
        Call.draws_roll count hf hcount (Nat.le_trans hpos hle)]
      constructor
      · have hmin : min count.toInt.toInt.toNat ctx₁.allowance
            ≤ min count.toInt.toInt.toNat ctx₂.allowance := by omega
        apply Paired.metered _ hroller hpos hle
        apply List.IsPrefix.map
        apply f.drawMany_cut hmin
      · omega

theorem rollUntil_cut (faces : Value) (cmp : Comparator) (threshold : Number) :
  Paired (fun p q => p.value <+: q.value ∧ ∀ x f, p.side = .die x f → p = q)
      (rollUntil faces cmp threshold ctx₁) (rollUntil faces cmp threshold ctx₂)
    ∧ (Call.rollUntil faces cmp threshold).draws ctx₁
      = min ctx₁.allowance ((Call.rollUntil faces cmp threshold).draws ctx₂)
  := by
  cases hf : Faces.ofValue? faces with
  | none =>
    have hrefused :
        ((Call.rollUntil faces cmp threshold).effect : Except EvalError (Effect (Counted ρ)))
          = .error (.die .noFaces) := by
      rw [Call.effect, Call.untilEffect, Call.throwing, hf]
    rw [rollUntil_eq, hf, Call.draws_of_refused hrefused, Call.draws_of_refused hrefused]
    exact ⟨.error _ _ _, (Nat.min_zero _).symm⟩
  | some f =>
    obtain ⟨hfront, hcount, heq⟩ :=
      f.drawUntil_cut (cmp.holds · threshold) hle ctx₁.roller
    rw [rollUntil_eq, hf, Call.draws_rollUntil hf cmp threshold hpos,
      Call.draws_rollUntil hf cmp threshold (Nat.le_trans hpos hle), ← hroller]
    refine ⟨?_, hcount⟩
    apply Paired.metered _ hroller hpos hle
    rcases h₁ : f.drawUntil (cmp.holds · threshold) ctx₁.allowance ctx₁.roller with ⟨ds, found, r₁⟩
    rcases h₂ : f.drawUntil (cmp.holds · threshold) ctx₂.allowance ctx₁.roller with ⟨us, found', r₂⟩
    rw [h₁, h₂] at hfront heq
    simp only [Thrown.untilHit, h₁, h₂]
    constructor
    · cases found <;> cases found' <;> exact hfront.map _
    · intro x g hside
      cases found with
      | none => cases hside
      | some d =>
        cases heq rfl
        rfl

theorem redraw_cut
    (vs : List Value) (cmp : Comparator) (threshold : Number) (how : Redraw) :
  Paired
      (fun ws us => ws.Sublist us
        ∧ ((Call.redraw vs cmp threshold how).draws ctx₂ ≤ ctx₁.allowance → ws = us))
      (redraw vs cmp threshold how ctx₁) (redraw vs cmp threshold how ctx₂)
    ∧ (Call.redraw vs cmp threshold how).draws ctx₁
      = min ctx₁.allowance ((Call.redraw vs cmp threshold how).draws ctx₂)
  := by
  obtain ⟨hsublist, hcount, heq⟩ :=
    redrawAll_cut how (cmp.holds · threshold) vs hle ctx₁.roller
  rw [redraw_eq, Call.draws_redraw vs cmp threshold how hpos,
    Call.draws_redraw vs cmp threshold how (Nat.le_trans hpos hle), ← hroller]
  refine ⟨?_, hcount⟩
  apply Paired.metered _ hroller hpos hle
  refine ⟨hsublist, ?_⟩
  intro hwithin
  exact congrArg Prod.fst (heq hwithin)

/-- Of two calls that differ in their quota alone, the one with the smaller allowance draws the dice
of the other as far as it goes. A roll comes to fewer dice, and a run of throws to fewer misses,
both from the front; a run that has its hit comes to the same. A redraw comes to the same elements
and dice with some left out, and none where the other one stays within the smaller allowance. -/
theorem cut_by_quota :
  (∀ count faces,
      Paired (· <+: ·) (roll count faces ctx₁) (roll count faces ctx₂)
        ∧ (Call.roll count faces).draws ctx₁
          = min ctx₁.allowance ((Call.roll count faces).draws ctx₂))
    ∧ (∀ faces cmp threshold,
      Paired (fun p q => p.value <+: q.value ∧ ∀ x f, p.side = .die x f → p = q)
          (rollUntil faces cmp threshold ctx₁) (rollUntil faces cmp threshold ctx₂)
        ∧ (Call.rollUntil faces cmp threshold).draws ctx₁
          = min ctx₁.allowance ((Call.rollUntil faces cmp threshold).draws ctx₂))
    ∧ ∀ vs cmp threshold how,
      Paired
          (fun ws us => ws.Sublist us
            ∧ ((Call.redraw vs cmp threshold how).draws ctx₂ ≤ ctx₁.allowance → ws = us))
          (redraw vs cmp threshold how ctx₁) (redraw vs cmp threshold how ctx₂)
        ∧ (Call.redraw vs cmp threshold how).draws ctx₁
          = min ctx₁.allowance ((Call.redraw vs cmp threshold how).draws ctx₂)
  := by
  refine ⟨?_, ?_, ?_⟩
  · apply roll_cut hroller hpos hle
  · apply rollUntil_cut hroller hpos hle
  · apply redraw_cut hroller hpos hle

end Play

/-- A context in which two sixes and a one are thrown, with some dice to a call. -/
def Context.ofSixes (perCall : UInt64) : Context Replay :=
  (Context.start ⟨[5, 5, 0], by decide, 0⟩).withQuota (.fresh perCall 9)

/-- A six explodes into two sixes and a one, or into the two sixes where the quota ends there. -/
theorem Play.cut_explosion :
  ((Context.ofSixes 2).roller = (Context.ofSixes 5).roller ∧ 1 ≤ (Context.ofSixes 2).allowance
      ∧ (Context.ofSixes 2).allowance ≤ (Context.ofSixes 5).allowance)
    ∧ Paired
      (fun ws us => ws.Sublist us
        ∧ ((Call.redraw [.number (.int 6)] .eq (.int 6) ⟨true, true⟩).draws (.ofSixes 5)
            ≤ (Context.ofSixes 2).allowance → ws = us))
      (redraw [.number (.int 6)] .eq (.int 6) ⟨true, true⟩ (.ofSixes 2))
      (redraw [.number (.int 6)] .eq (.int 6) ⟨true, true⟩ (.ofSixes 5))
    ∧ (Call.redraw [.number (.int 6)] .eq (.int 6) ⟨true, true⟩).draws (.ofSixes 2) = 2
    ∧ (Call.redraw [.number (.int 6)] .eq (.int 6) ⟨true, true⟩).draws (.ofSixes 5) = 3
  := by
  have hroller : (Context.ofSixes 2).roller = (Context.ofSixes 5).roller := rfl
  have hpos : 1 ≤ (Context.ofSixes 2).allowance := by decide
  have hle : (Context.ofSixes 2).allowance ≤ (Context.ofSixes 5).allowance := by decide
  obtain ⟨-, -, hredraw⟩ := cut_by_quota hroller hpos hle
  obtain ⟨hpaired, hdraws⟩ := hredraw [.number (.int 6)] .eq (.int 6) ⟨true, true⟩
  have hthree :
      (Call.redraw [.number (.int 6)] .eq (.int 6) ⟨true, true⟩).draws (.ofSixes 5) = 3 := by
    decide +kernel
  refine ⟨⟨hroller, hpos, hle⟩, hpaired, ?_, hthree⟩
  rw [hdraws, hthree]
  decide

end Dice
