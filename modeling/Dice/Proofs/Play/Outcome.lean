import Dice.Proofs.Play.Program

/-!
# Outcomes

What a computation leaves behind is an outcome: a context, and a result where it succeeds. Outcomes
are described by what holds of the contexts and of the results, through repeats too, where what
holds in each iteration may depend on the ones before it.
-/

namespace Dice

/-- An outcome whose context satisfies `P`, and its result, if there is one, `Q`. -/
def Leaves {ρ α : Type} (P : Context ρ → Prop) (Q : α → Prop) :
    EStateM.Result EvalError (Context ρ) α → Prop
  | .ok a ctx => Q a ∧ P ctx
  | .error _ ctx => P ctx

namespace Leaves

variable {ρ α β : Type} {P : Context ρ → Prop} {Q : α → Prop} {R : β → Prop}

theorem mono {P' : Context ρ → Prop} {Q' : α → Prop}
    {outcome : EStateM.Result EvalError (Context ρ) α} (h : Leaves P Q outcome)
    (hP : ∀ ctx, P ctx → P' ctx) (hQ : ∀ a, Q a → Q' a) :
  Leaves P' Q' outcome
  := by
  cases outcome with
  | ok a ctx => exact ⟨hQ a h.1, hP ctx h.2⟩
  | error e ctx => exact hP ctx h

/-- The context that a computation leaves, also where it fails. -/
theorem after {m : Play ρ α} {ctx : Context ρ} (h : Leaves P Q (m ctx)) :
  P (m.after ctx)
  := by
  rw [Play.after]
  cases hctx : m ctx with
  | ok a there =>
    rw [hctx] at h
    exact h.2
  | error e there =>
    rw [hctx] at h
    exact h

/-- The outcome of going on with a result. -/
theorem bind {m : Play ρ α} {k : α → Play ρ β} {ctx : Context ρ} (hm : Leaves P Q (m ctx))
    (hk : ∀ a ctx', m ctx = .ok a ctx' → Q a → P ctx' → Leaves P R (k a ctx')) :
  Leaves P R ((m >>= k) ctx)
  := by
  rw [Play.bind_apply]
  cases h : m ctx with
  | ok a ctx' =>
    rw [h] at hm
    exact hk a ctx' h hm.1 hm.2
  | error e ctx' =>
    rw [h] at hm
    exact hm

/-- The outcome of an attempt, which is an error or a result. -/
theorem attempt {m : Play ρ α} {ctx : Context ρ} (hm : Leaves P Q (m ctx)) :
  Leaves P (fun result => ∀ a, result = .ok a → Q a) (Play.attempt m ctx)
  := by
  rw [Play.attempt]
  cases h : m ctx with
  | ok a ctx' =>
    rw [h] at hm
    refine ⟨?_, hm.2⟩
    intro b hb
    cases hb
    exact hm.1
  | error e ctx' =>
    rw [h] at hm
    refine ⟨?_, hm⟩
    intro b hb
    cases hb

variable {P' : Context ρ → Prop} {Q : Value → Prop} {body : Int64 → Play ρ Value}

/-- The outcome of an iteration, after its frame is left. -/
theorem inFrame (hleave : ∀ ctx : Context ρ, P' ctx → P ctx.leave) {index : Int64}
    {ctx : Context ρ} (hbody : Leaves P' Q (body index (ctx.enter index))) :
  Leaves P Q (Play.inFrame index body ctx)
  := by
  rw [Play.inFrame_apply]
  cases h : body index (ctx.enter index) with
  | ok v ctx' =>
    rw [h] at hbody
    exact ⟨hbody.1, hleave ctx' hbody.2⟩
  | error e ctx' =>
    rw [h] at hbody
    exact hleave ctx' hbody

end Leaves

/-- One more iteration comes behind the others. -/
theorem Play.iterate_succ {ρ : Type} (body : Int64 → Play ρ Value) (n index : Nat) :
  iterate body (n + 1) index
    = iterate body n index >>= fun vs =>
        inFrame (.ofNat (index + n)) body >>= fun v => pure (vs ++ [v])
  := by
  induction n generalizing index with
  | zero => simp only [iterate, pure_bind, Nat.add_zero, List.nil_append]
  | succ n ih =>
    rw [iterate, ih, iterate]
    simp only [bind_assoc, pure_bind, List.cons_append, Nat.add_assoc, Nat.add_comm 1 n]

namespace Leaves

variable {ρ : Type} {P P' : Context ρ → Prop} {Q : Value → Prop} {body : Int64 → Play ρ Value}

/-- The outcome of some iterations, each of which begins where those before it succeeded. -/
theorem iterate (hleave : ∀ ctx : Context ρ, P' ctx → P ctx.leave) {ctx : Context ρ}
    (hctx : P ctx) {n : Nat}
    (hbody : ∀ k vs ctx', k < n → Play.iterate body k 0 ctx = .ok vs ctx' → P ctx' →
      Leaves P' Q (body (.ofNat k) (ctx'.enter (.ofNat k)))) :
  Leaves P (fun vs => ∀ v ∈ vs, Q v) (Play.iterate body n 0 ctx)
  := by
  induction n with
  | zero =>
    refine ⟨?_, hctx⟩
    intro v hv
    cases hv
  | succ n ih =>
    rw [Play.iterate_succ]
    apply bind (ih fun k vs ctx' hk => hbody k vs ctx' (Nat.lt_succ_of_lt hk))
    intro vs ctx' hvs hall hctx'
    rw [Nat.zero_add]
    apply bind (inFrame hleave (hbody n vs ctx' (Nat.lt_succ_self n) hvs hctx'))
    intro v ctx'' _ hv hctx''
    refine ⟨?_, hctx''⟩
    intro w hw
    rcases List.mem_append.1 hw with hw | hw
    · exact hall w hw
    · obtain rfl := List.mem_singleton.1 hw
      exact hv

/-- The outcome of a repeat. -/
theorem times (hleave : ∀ ctx : Context ρ, P' ctx → P ctx.leave) {ctx : Context ρ}
    (hctx : P ctx) {count : Number}
    (hbody : ∀ k vs ctx', k < count.toInt.toInt.toNat → Play.iterate body k 0 ctx = .ok vs ctx' →
      P ctx' → Leaves P' Q (body (.ofNat k) (ctx'.enter (.ofNat k)))) :
  Leaves P (fun vs => ∀ v ∈ vs, Q v) (Play.times count body ctx)
  := by
  rw [Play.times_eq]
  by_cases hneg : count.toInt < 0
  · rw [if_pos hneg]
    exact hctx
  · rw [if_neg hneg]
    apply iterate hleave hctx hbody

end Leaves

end Dice
