import Dice.Proofs.Likeness.Calls
import Dice.Proofs.Play.Trace

/-!
# Programs that are alike

Two programs are alike if they make calls with operands that are alike for as long as these come to
results that are alike. In contexts that are alike they make as many calls, each two of them alike,
and come to the same.
-/

namespace Dice.Likeness

variable (L : Likeness)

/-- Two programs that take alike steps as long as what they see is alike. -/
inductive Programs {ρ : Type} : Program ρ → Program ρ → Prop
  | done {result result' : Except EvalError Value} : Agree L.value result result' →
      Programs (.done result) (.done result')
  | call {c d : Call} {next next' : Except EvalError Step.Result → Program ρ} : L.Calls c d →
      (∀ result result', Agree L.Results result result' → Programs (next result) (next' result')) →
      Programs (.call c next) (.call d next')
  | times (count : Number) {body body' : Int64 → Program ρ}
      {next next' : Except EvalError (List Value) → Program ρ} :
      (∀ i, Programs (body i) (body' i)) →
      (∀ result result', Agree (List.Forall₂ L.value) result result' →
        Programs (next result) (next' result')) →
      Programs (.times count body next) (.times count body' next')
  | look {next next' : Context ρ → Program ρ} :
      (∀ ctx ctx', L.Contexts ctx ctx' → Programs (next ctx) (next' ctx')) →
      Programs (.look next) (.look next')
  | assign (name : String) {v w : Value} {next next' : Program ρ} : L.value v w →
      Programs next next' → Programs (.assign name v next) (.assign name w next')
  | bind (name : String) {v w : Value} {next next' : Program ρ} : L.value v w →
      Programs next next' → Programs (.bind name v next) (.bind name w next')

/-- Two calls that are alike, made in contexts that are alike. -/
structure Makes {ρ : Type} (m m' : Made ρ) : Prop where
  call : L.Calls m.call m'.call
  here : L.Contexts m.here m'.here

variable {L} {ρ α β : Type}

/-! ### Outcomes of computations -/

theorem Agree.imp {Q R : α → α → Prop} (hQR : ∀ a b, Q a b → R a b) {x y : Except EvalError α}
    (h : Agree Q x y) :
  Agree R x y
  := by
  cases h with
  | ok hab => exact .ok (hQR _ _ hab)
  | error e => exact .error e

theorem Agree.map {Q : α → α → Prop} {R : β → β → Prop} {k k' : α → β}
    (hk : ∀ a b, Q a b → R (k a) (k' b)) {x y : Except EvalError α} (h : Agree Q x y) :
  Agree R (x.map k) (y.map k')
  := by
  cases h with
  | ok hab => exact .ok (hk _ _ hab)
  | error e => exact .error e

namespace Outcomes

variable {Q : α → α → Prop} {m m' : Play ρ α} {ctx ctx' : Context ρ}
  (h : L.Outcomes Q (m ctx) (m' ctx'))

include h

theorem result :
  Agree Q (m.result ctx) (m'.result ctx')
  := by
  rw [Play.result, Play.result]
  generalize m ctx = x at h ⊢
  generalize m' ctx' = y at h ⊢
  cases h with
  | ok hab hctx => exact .ok hab
  | error hctx => exact .error _

theorem after :
  L.Contexts (m.after ctx) (m'.after ctx')
  := by
  rw [Play.after, Play.after]
  generalize m ctx = x at h ⊢
  generalize m' ctx' = y at h ⊢
  cases h with
  | ok hab hctx => exact hctx
  | error hctx => exact hctx

end Outcomes

namespace Plays

variable {Q : α → α → Prop} {R : β → β → Prop}

theorem pure {a b : α} (h : Q a b) :
  L.Plays Q (pure a : Play ρ α) (pure b)
  := fun _ _ hctx => .ok h hctx

theorem throw (e : EvalError) :
  L.Plays Q (throw e : Play ρ α) (throw e)
  := fun _ _ hctx => .error hctx

theorem bind {m m' : Play ρ α} {k k' : α → Play ρ β} (hm : L.Plays Q m m')
    (hk : ∀ a b, Q a b → L.Plays R (k a) (k' b)) :
  L.Plays R (m >>= k) (m' >>= k')
  := by
  intro ctx ctx' hctx
  have h := hm hctx
  rw [Play.bind_apply, Play.bind_apply]
  generalize m ctx = x at h ⊢
  generalize m' ctx' = y at h ⊢
  cases h with
  | ok hab hctx => exact hk _ _ hab hctx
  | error hctx => exact .error hctx

end Plays

/-! ### Repeats -/

namespace Contexts

variable {ctx ctx' : Context ρ} (h : L.Contexts ctx ctx')

include h

theorem enter (index : Int64) :
  L.Contexts (ctx.enter index) (ctx'.enter index)
  where
  roller := h.roller
  quota := h.quota
  scope := L.bind (L.push h.scope) (L.number _) _

theorem leave :
  L.Contexts ctx.leave ctx'.leave
  where
  roller := h.roller
  quota := h.quota
  scope := L.pop h.scope

end Contexts

section

variable {body body' : Int64 → Play ρ Value} (h : ∀ i, L.Plays L.value (body i) (body' i))

include h

theorem inFrame (index : Int64) :
  L.Plays L.value (Play.inFrame index body) (Play.inFrame index body')
  := by
  intro ctx ctx' hctx
  have hbody := h index (hctx.enter index)
  rw [Play.inFrame_apply, Play.inFrame_apply]
  generalize body index (ctx.enter index) = x at hbody ⊢
  generalize body' index (ctx'.enter index) = y at hbody ⊢
  cases hbody with
  | ok hv hctx => exact .ok hv hctx.leave
  | error hctx => exact .error hctx.leave

theorem iterate (n index : Nat) :
  L.Plays (List.Forall₂ L.value) (Play.iterate body n index) (Play.iterate body' n index)
  := by
  induction n generalizing index with
  | zero => exact Plays.pure .nil
  | succ n ih =>
    apply Plays.bind (inFrame h _)
    intro v w hv
    apply Plays.bind (ih _)
    intro vs ws hvs
    exact Plays.pure (hvs.cons hv)

theorem times (count : Number) :
  L.Plays (List.Forall₂ L.value) (Play.times count body) (Play.times count body')
  := by
  rw [Play.times_eq, Play.times_eq]
  by_cases hneg : count.toInt < 0
  · rw [if_pos hneg, if_pos hneg]
    apply Plays.throw
  · rw [if_neg hneg, if_neg hneg]
    apply iterate h

/-- The calls of iterations whose bodies make calls that are alike. -/
theorem gather {calls calls' : Int64 → Context ρ → List (Made ρ)}
    (hcalls : ∀ i ⦃ctx ctx'⦄, L.Contexts ctx ctx' →
      List.Forall₂ L.Makes (calls i ctx) (calls' i ctx'))
    (n index : Nat) {ctx ctx' : Context ρ} (hctx : L.Contexts ctx ctx') :
  List.Forall₂ L.Makes (Play.gather body calls n index ctx)
    (Play.gather body' calls' n index ctx')
  := by
  induction n generalizing index ctx ctx' with
  | zero => exact .nil
  | succ n ih =>
    have hfirst := inFrame h (.ofNat index) hctx
    rw [Play.gather, Play.gather]
    apply List.rel_append (hcalls _ (hctx.enter _))
    generalize Play.inFrame (.ofNat index) body ctx = x at hfirst ⊢
    generalize Play.inFrame (.ofNat index) body' ctx' = y at hfirst ⊢
    cases hfirst with
    | ok hv hctx => exact ih _ hctx
    | error hctx => exact .nil

end

/-! ### Runs -/

namespace Programs

/-- Going on alike with values that are alike. -/
theorem andThen {next next' : Value → Program ρ}
    (h : ∀ v w, L.value v w → L.Programs (next v) (next' w))
    {result result' : Except EvalError Step.Result} (hresult : Agree L.Results result result') :
  L.Programs (Program.andThen next result) (Program.andThen next' result')
  := by
  cases hresult with
  | error e => exact .done (.error e)
  | ok hr =>
    cases hr with
    | value hv => exact h _ _ hv
    | parted hp => exact h _ _ (L.list hp.value)

variable [Roller ρ] {p q : Program ρ}

/-- Programs that are alike come to the same. -/
theorem run (h : L.Programs p q) :
  L.Plays L.value p.run q.run
  := by
  induction h with
  | done h =>
    cases h with
    | ok hv => exact Plays.pure hv
    | error e => exact Plays.throw e
  | call h hnext ih =>
    intro ctx ctx' hctx
    have hcall := perform h hctx
    rw [Program.run_call, Program.run_call]
    exact ih _ _ hcall.result hcall.after
  | times count hbody hnext ihbody ihnext =>
    intro ctx ctx' hctx
    have htimes := Likeness.times ihbody count hctx
    rw [Program.run_times, Program.run_times]
    exact ihnext _ _ htimes.result htimes.after
  | look hnext ih =>
    intro ctx ctx' hctx
    exact ih ctx ctx' hctx hctx
  | assign name hv hnext ih =>
    intro ctx ctx' hctx
    exact ih (hctx.set hv name)
  | bind name hv hnext ih =>
    intro ctx ctx' hctx
    exact ih (hctx.bind hv name)

/-- Programs that are alike make calls that are alike, in the same order. -/
theorem calls (h : L.Programs p q) {ctx ctx' : Context ρ} (hctx : L.Contexts ctx ctx') :
  List.Forall₂ L.Makes (p.calls ctx) (q.calls ctx')
  := by
  induction h generalizing ctx ctx' with
  | done h => exact .nil
  | call h hnext ih =>
    have hcall := perform h hctx
    exact (ih _ _ hcall.result hcall.after).cons ⟨h, hctx⟩
  | times count hbody hnext ihbody ihnext =>
    have hruns := fun i => (hbody i).run
    have htimes := Likeness.times hruns count hctx
    apply List.rel_append
    · apply gather hruns _ _ _ hctx
      intro i ctx ctx' hctx
      exact ihbody i hctx
    · exact ihnext _ _ htimes.result htimes.after
  | look hnext ih => exact ih ctx ctx' hctx hctx
  | assign name hv hnext ih => exact ih (hctx.set hv name)
  | bind name hv hnext ih => exact ih (hctx.bind hv name)

end Programs

end Dice.Likeness
