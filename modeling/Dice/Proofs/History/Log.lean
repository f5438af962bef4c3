import Dice.Proofs.History.Entries
import Dice.Proofs.Likeness.Equality

/-!
# The history of a run

The history of a run is a log of its calls: each one adds its entries behind those of the calls
before it, however the repeats between them are nested and whatever fails. Nothing is ever read off
it: a run that keeps no history comes to the same.
-/

namespace Dice

variable {ρ : Type}

/-- The context without a history. -/
def Context.silent (ctx : Context ρ) : Context ρ :=
  { ctx with history := none }

namespace Context

theorem silent_eq_self {ctx : Context ρ} (h : ctx.history = none) :
  ctx.silent = ctx
  := by
  rw [silent, ← h]

/-! ### What is added along a run -/

theorem Adds.trans {es es' : List Entry} {ctx₁ ctx₂ ctx₃ : Context ρ} (h : Adds es ctx₁ ctx₂)
    (h' : Adds es' ctx₂ ctx₃) :
  Adds (es ++ es') ctx₁ ctx₃
  := by
  rw [Adds] at h h' ⊢
  rw [h', h, Option.map_map]
  congr 1
  funext entries
  simp

end Context

variable [Roller ρ]

/-- The entries that a call adds in the context in which it is made. -/
def Made.entries (m : Made ρ) : List Entry :=
  m.call.entries m.here

/-- What is added along some calls are their entries. -/
theorem tracks_entries :
  Tracks fun (ms : List (Made ρ)) ctx ctx' => Context.Adds (ms.flatMap Made.entries) ctx ctx'
  where
  scope _ _ := Context.adds_nil rfl
  trans h h' := by
    rw [List.flatMap_append]
    exact h.trans h'

namespace Program

/-- A run adds the entries of its calls, in their order. -/
theorem run_adds (p : Program ρ) (ctx : Context ρ) :
  Context.Adds ((p.calls ctx).flatMap Made.entries) ctx (p.run.after ctx)
  := by
  apply tracks_entries.after_run
  intro c ctx
  rw [List.flatMap_singleton]
  exact c.adds_entries ctx

/-! ### Runs without a history -/

/-- A program that does not look at the history. -/
def Unaware : Program ρ → Prop
  | done _ => True
  | call _ next => ∀ result, (next result).Unaware
  | times _ body next => (∀ i, (body i).Unaware) ∧ ∀ result, (next result).Unaware
  | look next => ∀ ctx, (next ctx).Unaware ∧ next ctx = next ctx.silent
  | assign _ _ next => next.Unaware
  | bind _ _ next => next.Unaware

end Program

namespace Likeness

omit [Roller ρ] in
theorem equal_contexts {ctx ctx' : Context ρ} :
  equal.Contexts ctx ctx' ↔ ctx.silent = ctx'.silent
  := by
  obtain ⟨r, quota, history, scope⟩ := ctx
  obtain ⟨r', quota', history', scope'⟩ := ctx'
  constructor
  · rintro ⟨hroller, hquota, hscope⟩
    cases hroller
    cases hquota
    cases hscope
    rfl
  · intro h
    cases h
    exact ⟨rfl, rfl, rfl⟩

end Likeness

namespace Program

omit [Roller ρ] in
/-- A program that does not look at the history takes the same steps without one. -/
theorem Unaware.programs {p : Program ρ} (h : p.Unaware) :
  Likeness.equal.Programs p p
  := by
  have hexact := Likeness.exact_equal
  induction p with
  | done result => exact .done (hexact.agree_refl result)
  | call c next ih =>
    apply hexact.programs_call c
    intro result
    exact ih result (h result)
  | times count body next ihbody ihnext =>
    apply hexact.programs_times count
    · intro i
      exact ihbody i (h.1 i)
    · intro result
      exact ihnext result (h.2 result)
  | look next ih =>
    apply Likeness.Programs.look
    intro ctx ctx' hctx
    have hnext : next ctx' = next ctx := by
      rw [(h ctx).2, (h ctx').2, Likeness.equal_contexts.1 hctx]
    rw [hnext]
    exact ih ctx (h ctx).1
  | assign name v next ih => exact .assign name rfl (ih h)
  | bind name v next ih => exact .bind name rfl (ih h)

/-- The history is a faithful log of a run and plays no part in it. It grows by the entries of the
calls that the run makes, one call after the other: for each throw that succeeds the list that it
returns, and for a run of throws that has its hit that die as well. From a context without a history
a program that does not look at it comes to the same, leaves the same roller, quota and scope, and
makes the same calls, each of which comes to the same and leaves the same. -/
theorem history_faithful (p : Program ρ) (ctx : Context ρ) :
  (p.run.after ctx).history
      = ctx.history.map (· ++ ((p.calls ctx).flatMap fun m => m.call.entries m.here).toArray)
    ∧ (p.Unaware →
      p.run.result ctx.silent = p.run.result ctx
        ∧ p.run.after ctx.silent = (p.run.after ctx).silent
        ∧ List.Forall₂
          (fun m m' => m'.call = m.call ∧ m'.here.silent = m.here.silent
            ∧ m'.call.perform.result m'.here = m.call.perform.result m.here
            ∧ (m'.call.perform.after m'.here).silent = (m.call.perform.after m.here).silent)
          (p.calls ctx) (p.calls ctx.silent))
  := by
  refine ⟨p.run_adds ctx, ?_⟩
  intro h
  have hprograms := h.programs
  have hctx : Likeness.equal.Contexts ctx ctx.silent := ⟨rfl, rfl, rfl⟩
  have hrun := hprograms.run hctx
  refine ⟨?_, ?_, ?_⟩
  · exact (hrun.result.eq fun _ _ => (Likeness.exact_equal _ _).1).symm
  · have hafter := Likeness.equal_contexts.1 hrun.after
    have hsilent : (p.run.after ctx.silent).history = none := p.run_adds ctx.silent
    rw [hafter, Context.silent_eq_self hsilent]
  · apply (hprograms.calls hctx).imp
    intro m m' hm
    have hcall := Likeness.perform hm.call hm.here
    refine ⟨(Likeness.eq_of_equal_calls hm.call).symm, (Likeness.equal_contexts.1 hm.here).symm, ?_, ?_⟩
    · exact (hcall.result.eq fun _ _ => Likeness.exact_equal.eq_of_results).symm
    · exact (Likeness.equal_contexts.1 hcall.after).symm

theorem rounds_unaware :
  rounds.Unaware
  := by
  refine ⟨?_, fun _ => trivial⟩
  intro i thrown refused
  exact ⟨fun _ _ => trivial, fun _ => trivial⟩

/-- Of the calls of the rounds, the refused ones and the last one, which finds the quota spent, add
nothing to the history, and each of the others adds an entry. Without a history the rounds come to
the same. -/
theorem history_rounds :
  rounds.Unaware
    ∧ ((rounds.calls Context.ofRounds.withHistory).map fun m => (m.call.entries m.here).length)
      = [1, 0, 1, 1, 1, 0, 0]
    ∧ (rounds.run.after Context.ofRounds.withHistory).entries.length = 4
    ∧ rounds.run.result Context.ofRounds = rounds.run.result Context.ofRounds.withHistory
  := by
  obtain ⟨hhistory, hsilent⟩ := rounds.history_faithful Context.ofRounds.withHistory
  have hlengths : ((rounds.calls Context.ofRounds.withHistory).map fun m =>
      (m.call.entries m.here).length) = [1, 0, 1, 1, 1, 0, 0] := by
    decide +kernel
  have hempty : Context.ofRounds.withHistory.history = some #[] := rfl
  refine ⟨rounds_unaware, hlengths, ?_, (hsilent rounds_unaware).1⟩
  rw [Context.entries, hhistory, hempty]
  simp [List.length_flatMap, hlengths]

end Program

end Dice
