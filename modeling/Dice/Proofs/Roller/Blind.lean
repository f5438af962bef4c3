import Dice.Proofs.Play.Trace
import Dice.Proofs.Roller.Morphism
import Mathlib.Data.List.Forall2

/-!
# Programs that do not see the roller

A program that does not see the roller sees the rest of its contexts. Along a morphism of rollers it
makes the same calls, each of which comes to the same, and so does its run.
-/

namespace Dice

variable {σ ρ : Type}

/-- The program that sees everything but the roller. -/
def Program.blind (q : Program Unit) : Program ρ :=
  q.comap fun _ => ()

/-- With another roller, a program that does not see it takes the same steps. -/
theorem Program.comap_blind (h : σ → ρ) (q : Program Unit) :
  (q.blind : Program ρ).comap h = q.blind
  := by
  unfold blind
  induction q with
  | done result => rfl
  | call c next ih => simp only [comap, ih]
  | times count body next ihbody ihnext => simp only [comap, ihbody, ihnext]
  | look next ih => simp only [comap, ih, Context.map]
  | assign name v next ih => simp only [comap, ih]
  | bind name v next ih => simp only [comap, ih]

/-- A call made with another roller. -/
def Made.map (h : σ → ρ) (m : Made σ) : Made ρ :=
  ⟨m.call, m.here.map h⟩

theorem Commutes.result {α : Type} {h : σ → ρ} {m : Play σ α} {m' : Play ρ α}
    (hm : Commutes h m m') (ctx : Context σ) :
  m'.result (ctx.map h) = m.result ctx
  := by
  rw [Play.result, Play.result, hm ctx]
  cases m ctx <;> rfl

/-- Iterations that come to the same along a map of rollers make the same calls. -/
theorem Commutes.gather {h : σ → ρ} {body : Int64 → Play σ Value} {body' : Int64 → Play ρ Value}
    {calls : Int64 → Context σ → List (Made σ)} {calls' : Int64 → Context ρ → List (Made ρ)}
    (hbody : ∀ i, Commutes h (body i) (body' i))
    (hcalls : ∀ i ctx, calls' i (ctx.map h) = (calls i ctx).map (Made.map h)) (n index : Nat)
    (ctx : Context σ) :
  Play.gather body' calls' n index (ctx.map h)
    = (Play.gather body calls n index ctx).map (Made.map h)
  := by
  induction n generalizing index ctx with
  | zero => rfl
  | succ n ih =>
    have henter : ∀ i, (ctx.map h).enter i = (ctx.enter i).map h := fun _ => rfl
    rw [Play.gather, Play.gather, List.map_append, henter, hcalls,
      Commutes.inFrame hbody (.ofNat index) ctx]
    cases Play.inFrame (.ofNat index) body ctx with
    | ok v ctx' => exact congrArg _ (ih _ _)
    | error e ctx' => rfl

variable [Roller σ] [Roller ρ] {h : σ → ρ}

/-- Along a morphism of rollers a program makes the same calls. -/
theorem Program.calls_comap (hh : Roller.Morphism h) (p : Program ρ) (ctx : Context σ) :
  p.calls (ctx.map h) = ((p.comap h).calls ctx).map (Made.map h)
  := by
  induction p generalizing ctx with
  | done result => rfl
  | call c next ih =>
    have hcall := Commutes.perform hh c
    rw [calls, hcall.result, hcall.after, ih]
    rfl
  | times count body next ihbody ihnext =>
    have hbody := fun i => (body i).run_comap hh
    have htimes := Commutes.times hbody count
    rw [comap, calls, calls, List.map_append, Commutes.gather hbody ihbody]
    simp only [htimes.result, htimes.after, ihnext]
  | look next ih => exact ih (ctx.map h) ctx
  | assign name v next ih => exact ih { ctx with scope := ctx.scope.set name v }
  | bind name v next ih => exact ih { ctx with scope := ctx.scope.bind name v }

/-- Along a morphism of rollers, a program that does not see the roller comes to the same, and so
does each of its calls. -/
theorem Program.blind_map (hh : Roller.Morphism h) (q : Program Unit) (ctx : Context σ) :
  q.blind.run.result (ctx.map h) = q.blind.run.result ctx
    ∧ q.blind.run.after (ctx.map h) = (q.blind.run.after ctx).map h
    ∧ List.Forall₂
      (fun m m' => m'.call = m.call
        ∧ m'.call.perform.result m'.here = m.call.perform.result m.here)
      (q.blind.calls ctx) (q.blind.calls (ctx.map h))
  := by
  have hrun := q.blind.run_comap hh
  rw [comap_blind] at hrun
  refine ⟨hrun.result ctx, hrun.after ctx, ?_⟩
  rw [calls_comap hh, comap_blind, List.forall₂_map_right_iff, List.forall₂_same]
  intro m _
  exact ⟨rfl, (Commutes.perform hh m.call).result m.here⟩

end Dice
