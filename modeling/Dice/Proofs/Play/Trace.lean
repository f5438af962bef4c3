import Dice.Proofs.Play.Program

/-!
# The calls of a run

A run makes its calls one after another, those of the iterations of a repeat in between. Each of
them is made in the context that the ones before it have left. A relation between contexts that
holds along every call holds along every run.
-/

namespace Dice

/-- A call and the context in which it is made. -/
structure Made (ρ : Type) where
  call : Call
  here : Context ρ

namespace Play

variable {ρ α : Type}

/-- What a computation comes to, which is a result or an error. -/
def result (m : Play ρ α) (ctx : Context ρ) : Except EvalError α :=
  match m ctx with
  | .ok a _ => .ok a
  | .error e _ => .error e

/-- The calls of `n` iterations with indices from `index` on, given those of a body. The first
iteration that fails is the last one. -/
def gather (body : Int64 → Play ρ Value) (calls : Int64 → Context ρ → List (Made ρ)) :
    (n index : Nat) → Context ρ → List (Made ρ)
  | 0, _, _ => []
  | n + 1, index, ctx =>
    calls (.ofNat index) (ctx.enter (.ofNat index))
      ++ match inFrame (.ofNat index) body ctx with
        | .ok _ ctx => gather body calls n (index + 1) ctx
        | .error _ _ => []

/-- An attempt succeeds with what the computation comes to. -/
theorem attempt_apply (m : Play ρ α) (ctx : Context ρ) :
  attempt m ctx = .ok (m.result ctx) (m.after ctx)
  := by
  rw [attempt, result, after]
  cases m ctx <;> rfl

/-- Computations with the same outcome leave the same context. -/
theorem after_congr {m m' : Play ρ α} {ctx ctx' : Context ρ} (h : m ctx = m' ctx') :
  m.after ctx = m'.after ctx'
  := by
  rw [after, after, h]

/-- Iterations succeed if the first one does, and then the others from where it ended. -/
theorem iterate_succ_eq_ok_iff
    {body : Int64 → Play ρ Value} {n index : Nat} {ctx there : Context ρ} {vs : List Value} :
  iterate body (n + 1) index ctx = .ok vs there
    ↔ ∃ v here ws, inFrame (.ofNat index) body ctx = .ok v here
      ∧ iterate body n (index + 1) here = .ok ws there ∧ vs = v :: ws
  := by
  rw [iterate, bind_apply]
  constructor
  · intro h
    cases hfirst : inFrame (.ofNat index) body ctx with
    | error e here =>
      rw [hfirst] at h
      cases h
    | ok v here =>
      rw [hfirst] at h
      simp only [bind_apply] at h
      cases hrest : iterate body n (index + 1) here with
      | error e there' =>
        rw [hrest] at h
        cases h
      | ok ws there' =>
        rw [hrest] at h
        cases h
        exact ⟨v, here, ws, rfl, hrest, rfl⟩
  · rintro ⟨v, here, ws, hfirst, hrest, rfl⟩
    simp only [hfirst, bind_apply, hrest, pure_apply]

/-- The calls of iterations are those of the bodies, each in the context that the iterations before
it have left. -/
theorem mem_gather_iff
    {body : Int64 → Play ρ Value} {calls : Int64 → Context ρ → List (Made ρ)} {m : Made ρ}
    {n index : Nat} {ctx : Context ρ} :
  m ∈ gather body calls n index ctx
    ↔ ∃ k vs here, k < n ∧ iterate body k index ctx = .ok vs here
      ∧ m ∈ calls (.ofNat (index + k)) (here.enter (.ofNat (index + k)))
  := by
  induction n generalizing index ctx with
  | zero => simp [gather]
  | succ n ih =>
    have hindex : ∀ k, index + 1 + k = index + (k + 1) := by
      intro k
      rw [Nat.add_assoc, Nat.add_comm 1 k]
    rw [gather, List.mem_append]
    constructor
    · rintro (h | h)
      · exact ⟨0, [], ctx, Nat.succ_pos n, rfl, h⟩
      · cases hfirst : inFrame (.ofNat index) body ctx with
        | error e here =>
          rw [hfirst] at h
          cases h
        | ok v here =>
          rw [hfirst] at h
          obtain ⟨k, ws, there, hk, hws, hm⟩ := ih.1 h
          rw [hindex] at hm
          exact ⟨k + 1, v :: ws, there, Nat.succ_lt_succ hk,
            iterate_succ_eq_ok_iff.2 ⟨v, here, ws, hfirst, hws, rfl⟩, hm⟩
    · rintro ⟨k, vs, there, hk, hvs, hm⟩
      cases k with
      | zero =>
        cases hvs
        exact .inl hm
      | succ k =>
        obtain ⟨v, here, ws, hfirst, hws, -⟩ := iterate_succ_eq_ok_iff.1 hvs
        rw [← hindex] at hm
        rw [hfirst]
        exact .inr (ih.2 ⟨k, ws, there, Nat.lt_of_succ_lt_succ hk, hws, hm⟩)

end Play

namespace Program

variable {ρ : Type} [Roller ρ]

/-- The calls that the run of a program from a context makes, in their order. -/
def calls : Program ρ → Context ρ → List (Made ρ)
  | done _, _ => []
  | call c next, ctx =>
    ⟨c, ctx⟩ :: (next (c.perform.result ctx)).calls (c.perform.after ctx)
  | times count body next, ctx =>
    let run : Play ρ (List Value) := Play.times count fun i => (body i).run
    Play.gather (fun i => (body i).run) (fun i => (body i).calls) count.toInt.toInt.toNat 0 ctx
      ++ (next (run.result ctx)).calls (run.after ctx)
  | look next, ctx => (next ctx).calls ctx
  | assign name v next, ctx => next.calls { ctx with scope := ctx.scope.set name v }
  | bind name v next, ctx => next.calls { ctx with scope := ctx.scope.bind name v }

theorem run_call (c : Call) (next : Except EvalError Step.Result → Program ρ) (ctx : Context ρ) :
  (call c next).run ctx = (next (c.perform.result ctx)).run (c.perform.after ctx)
  := by
  rw [run, Play.bind_apply, Play.attempt_apply]

theorem run_times (count : Number) (body : Int64 → Program ρ)
    (next : Except EvalError (List Value) → Program ρ) (ctx : Context ρ) :
  (times count body next).run ctx
    = (next ((Play.times count fun i => (body i).run).result ctx)).run
        ((Play.times count fun i => (body i).run).after ctx)
  := by
  rw [run, Play.bind_apply, Play.attempt_apply]

end Program

/-! ### Relations along the calls -/

/-- A relation between two contexts and the calls that are made on the way from the one to the
other. It holds along no calls where only the scope changes, and goes on behind others. It need not
look at the calls. -/
structure Tracks {ρ : Type} (R : List (Made ρ) → Context ρ → Context ρ → Prop) : Prop where
  scope (ctx : Context ρ) (scope : Scope) : R [] ctx { ctx with scope }
  trans {ms ms' : List (Made ρ)} {ctx₁ ctx₂ ctx₃ : Context ρ} :
    R ms ctx₁ ctx₂ → R ms' ctx₂ ctx₃ → R (ms ++ ms') ctx₁ ctx₃

namespace Tracks

variable {ρ : Type} {R : List (Made ρ) → Context ρ → Context ρ → Prop} (hR : Tracks R)

include hR

theorem refl (ctx : Context ρ) :
  R [] ctx ctx
  := hR.scope ctx ctx.scope

/-- The relation holds along the iterations of a repeat and their calls. -/
theorem after_iterate {body : Int64 → Play ρ Value} {calls : Int64 → Context ρ → List (Made ρ)}
    (hbody : ∀ i ctx, R (calls i ctx) ctx ((body i).after ctx)) (n index : Nat)
    (ctx : Context ρ) :
  R (Play.gather body calls n index ctx) ctx ((Play.iterate body n index).after ctx)
  := by
  induction n generalizing index ctx with
  | zero => exact hR.refl ctx
  | succ n ih =>
    have hfirst := hR.trans (hR.scope ctx _) (hbody (.ofNat index) (ctx.enter (.ofNat index)))
    rw [List.nil_append, Play.after] at hfirst
    rw [Play.gather, Play.after, Play.iterate, Play.bind_apply, Play.inFrame_apply]
    cases hv : body (.ofNat index) (ctx.enter (.ofNat index)) with
    | error e there =>
      -- The first iteration fails: no other one makes a call.
      rw [hv] at hfirst
      exact hR.trans hfirst (hR.scope there _)
    | ok v there =>
      rw [hv] at hfirst
      have hleft := hR.trans hfirst (hR.scope there there.leave.scope)
      rw [List.append_nil] at hleft
      have hrest := hR.trans hleft (ih (index + 1) there.leave)
      rw [Play.after] at hrest
      simp only [Play.bind_apply]
      cases hvs : Play.iterate body n (index + 1) there.leave with
      | ok vs there' =>
        rw [hvs] at hrest
        exact hrest
      | error e there' =>
        rw [hvs] at hrest
        exact hrest

/-- The relation holds along a repeat and the calls of its iterations. -/
theorem after_times {body : Int64 → Play ρ Value} {calls : Int64 → Context ρ → List (Made ρ)}
    (hbody : ∀ i ctx, R (calls i ctx) ctx ((body i).after ctx)) (count : Number)
    (ctx : Context ρ) :
  R (Play.gather body calls count.toInt.toInt.toNat 0 ctx) ctx
    ((Play.times count body).after ctx)
  := by
  rw [Play.times_eq]
  by_cases hneg : count.toInt < 0
  · have hnone : count.toInt.toInt.toNat = 0 := by
      rw [Int64.lt_iff_toInt_lt, Int64.toInt_zero] at hneg
      omega
    rw [if_pos hneg, hnone]
    exact hR.refl ctx
  · rw [if_neg hneg]
    apply hR.after_iterate hbody

variable [Roller ρ]

/-- What holds along every single call holds along every run and its calls. -/
theorem after_run (hcall : ∀ (c : Call) ctx, R [⟨c, ctx⟩] ctx (c.perform.after ctx))
    (p : Program ρ) (ctx : Context ρ) :
  R (p.calls ctx) ctx (p.run.after ctx)
  := by
  induction p generalizing ctx with
  | done result => cases result <;> exact hR.refl ctx
  | call c next ih =>
    rw [Play.after_congr (Program.run_call c next ctx)]
    exact hR.trans (hcall c ctx) (ih _ _)
  | times count body next ihbody ihnext =>
    rw [Play.after_congr (Program.run_times count body next ctx)]
    exact hR.trans (hR.after_times ihbody count ctx) (ihnext _ _)
  | look next ih => exact ih ctx ctx
  | assign name v next ih => exact hR.trans (hR.scope ctx _) (ih _)
  | bind name v next ih => exact hR.trans (hR.scope ctx _) (ih _)

end Tracks

end Dice
