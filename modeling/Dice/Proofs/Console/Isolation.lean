import Dice.Console.Options
import Dice.Console.Transcript
import Dice.Proofs.Console.Commands
import Dice.Proofs.Quota.Accounting

/-!
# Isolation of lines

Between two lines of a dialogue nothing is left of the first one but the state of the roller, the
values that operators have left, and its part of the history. Each line begins with a single frame
and with nothing charged to the quota.
-/

namespace Dice

/-! ### Quotas along runs -/

/-- From one context to another the limits of the quota stay. -/
def Context.SameLimits {ρ : Type} (ctx ctx' : Context ρ) : Prop :=
  ctx'.quota.map Quota.reset = ctx.quota.map Quota.reset

variable {ρ : Type}

theorem tracks_sameLimits :
  Tracks fun _ => (Context.SameLimits : Context ρ → Context ρ → Prop)
  where
  trans h h' := h'.trans h
  scope _ _ := rfl

variable [Roller ρ]

theorem Call.sameLimits_after (c : Call) (ctx : Context ρ) :
  Context.SameLimits ctx (c.perform.after ctx)
  := by
  rw [Call.perform_eq]
  cases (c.effect : Except EvalError (Effect ρ)) with
  | error e => rfl
  | ok effect =>
    cases effect with
    | sets name parted => rfl
    | throws run =>
      rw [Effect.playChecked, Effect.play, Context.SameLimits, Play.after, Play.metered]
      by_cases hzero : ctx.allowance = 0
      · rw [if_pos hzero]
      · rw [if_neg hzero]
        simp only [Context.settle, Option.map_map]
        rfl

namespace Console

/-- The context in which a dialogue begins: it keeps a history, and a quota if there is one. -/
def opened (roller : ρ) (quota : Option Quota) : Context ρ :=
  { (Context.start roller).withHistory with quota }

/-- The context that options give is one in which a dialogue begins. -/
theorem context_eq {γ : Type} (o : Options) (seeded : UInt64 → γ) (default : Source γ) :
  o.context seeded default = opened (o.source seeded default) o.quota?
  := rfl

/-- From its first context and all its lines, a dialogue comes to another context with some lines
left. None of the lines before them ends it. -/
inductive ComesTo (start : Context ρ) (lines : List String) : Context ρ → List String → Prop
  | start : ComesTo start lines start lines
  | next {ctx : Context ρ} {line : String} {rest : List String} :
      ComesTo start lines ctx (line :: rest) → (answer ctx line).1.code? = none →
      ComesTo start lines (answer ctx line).2 rest

/-- The words of the lines that are no commands. -/
def controls : List (List String) :=
  [[], ["quit"], ["exit"], ["history"], ["vars"]]

/-- A command is evaluated with nothing charged to the quota. -/
theorem respond_command {words : List String} (h : words ∉ controls) (ctx : Context ρ) :
  respond ctx words
    = match eval words (fresh ctx) with
      | .ok v ctx => (say (showValue v), ctx)
      | .error e ctx => (complain e, ctx)
  := by
  unfold respond
  split
  case h_6 => rfl
  all_goals simp [controls] at h

/-- Any other line leaves the context as it is, except for the history. -/
theorem respond_control {words : List String} (h : words ∈ controls) (ctx : Context ρ) :
  Likeness.equal.Contexts ctx (respond ctx words).2
  := by
  have hrefl : Likeness.equal.Contexts ctx ctx := ⟨rfl, rfl, rfl⟩
  simp only [controls, List.mem_cons, List.not_mem_nil, or_false] at h
  rcases h with rfl | rfl | rfl | rfl | rfl
  · exact hrefl
  · exact hrefl
  · exact hrefl
  · exact ⟨rfl, rfl, rfl⟩
  · exact hrefl

/-- What a line leaves: what its evaluation leaves, if it is a command. -/
theorem respond_after {words : List String} (h : words ∉ controls) (ctx : Context ρ) :
  (respond ctx words).2 = (program words).run.after (fresh ctx)
  := by
  rw [respond_command h, Play.after, run_program]
  cases eval words (fresh ctx) <;> rfl

/-! ### The context of a line -/

/-- The context between two lines: a single frame, in which only what operators assign is bound, and
the limits with which the dialogue began. -/
structure Tidy (quota : Option Quota) (ctx : Context ρ) : Prop where
  scope : ctx.scope.Clean 0
  quota : ctx.quota.map Quota.reset = quota.map Quota.reset

theorem Tidy.answer {quota : Option Quota} {ctx : Context ρ} (h : Tidy quota ctx) (line : String) :
  Tidy quota (answer ctx line).2
  := by
  rw [Console.answer]
  by_cases hcontrol : Text.words line ∈ controls
  · obtain ⟨-, hquota, hscope⟩ := respond_control hcontrol ctx
    exact ⟨hscope ▸ h.scope, hquota ▸ h.quota⟩
  · rw [respond_after hcontrol]
    have hclean : (fresh ctx).scope.Clean 0 := h.scope
    refine ⟨((plain_program _).run_clean hclean).after, ?_⟩
    have hlimits : Context.SameLimits (fresh ctx) _ :=
      tracks_sameLimits.after_run Call.sameLimits_after (program (Text.words line)) (fresh ctx)
    rw [hlimits, ← h.quota, fresh, Option.map_map]
    rfl

/-- What is written before a context and what is written from there on. -/
theorem ComesTo.transcript {start there : Context ρ} {lines rest : List String}
    (h : ComesTo start lines there rest) :
  ∃ before : Transcript, Console.transcript start lines
    = ⟨before.out ++ (Console.transcript there rest).out,
        before.err ++ (Console.transcript there rest).err, (Console.transcript there rest).code⟩
  := by
  induction h with
  | start => exact ⟨⟨"", "", success⟩, by simp⟩
  | @next ctx line rest h hlast ih =>
    obtain ⟨before, hbefore⟩ := ih
    refine ⟨⟨before.out ++ prompt ++ (Console.answer ctx line).1.out,
      before.err ++ (Console.answer ctx line).1.err, success⟩, ?_⟩
    rw [hbefore, Console.transcript]
    simp [hlast, String.append_assoc]

/-! ### Two dialogues -/

end Console

end Dice
