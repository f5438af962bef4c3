import Dice.Proofs.Play.Trace

/-!
# Reached programs

At every point of a run, some program is left to be run in the context that is reached. On the way
there some of the calls of the run have been made, those with which it begins, and a call is made
where it is what comes next. What holds along every call holds along the calls on the way.
-/

namespace Dice

namespace Play

variable {ρ : Type}

/-- The calls of some iterations come before those of the iterations behind them. -/
theorem gather_add
    {body : Int64 → Play ρ Value} (calls : Int64 → Context ρ → List (Made ρ)) {k index : Nat}
    {ctx ctx' : Context ρ} {vs : List Value} (h : iterate body k index ctx = .ok vs ctx')
    (n : Nat) :
  gather body calls (k + n) index ctx
    = gather body calls k index ctx ++ gather body calls n (index + k) ctx'
  := by
  induction k generalizing index ctx vs with
  | zero =>
    cases h
    rw [Nat.zero_add]
    rfl
  | succ k ih =>
    obtain ⟨v, here, ws, hfirst, hrest, -⟩ := iterate_succ_eq_ok_iff.1 h
    rw [Nat.add_right_comm, gather, gather, hfirst]
    simp only
    rw [ih hrest, List.append_assoc, Nat.add_assoc, Nat.add_comm 1 k]

end Play

namespace Program

variable {ρ : Type} [Roller ρ]

/-- The run of a program from a context reaches another program in another context, and has made
some calls on the way. Within a repeat that is its body in the context of the iteration with index
`k`, which is reached when the iterations before it succeed. -/
inductive ReachesBy (q : Program ρ) (there : Context ρ) :
    List (Made ρ) → Program ρ → Context ρ → Prop
  | refl : ReachesBy q there [] q there
  | afterCall {c : Call} {next : Except EvalError Step.Result → Program ρ} {ctx : Context ρ}
    {ms : List (Made ρ)} :
    ReachesBy q there ms (next (c.perform.result ctx)) (c.perform.after ctx) →
      ReachesBy q there (⟨c, ctx⟩ :: ms) (call c next) ctx
  | inTimes {count : Number} {body : Int64 → Program ρ}
    {next : Except EvalError (List Value) → Program ρ} {ctx ctx' : Context ρ} {k : Nat}
    {vs : List Value} {ms : List (Made ρ)} :
    k < count.toInt.toInt.toNat → Play.iterate (fun i => (body i).run) k 0 ctx = .ok vs ctx' →
      ReachesBy q there ms (body (.ofNat k)) (ctx'.enter (.ofNat k)) →
      ReachesBy q there
        (Play.gather (fun i => (body i).run) (fun i => (body i).calls) k 0 ctx ++ ms)
        (times count body next) ctx
  | afterTimes {count : Number} {body : Int64 → Program ρ}
    {next : Except EvalError (List Value) → Program ρ} {ctx : Context ρ} {ms : List (Made ρ)} :
    ReachesBy q there ms (next ((Play.times count fun i => (body i).run).result ctx))
        ((Play.times count fun i => (body i).run).after ctx) →
      ReachesBy q there
        (Play.gather (fun i => (body i).run) (fun i => (body i).calls) count.toInt.toInt.toNat 0 ctx
          ++ ms)
        (times count body next) ctx
  | afterLook {next : Context ρ → Program ρ} {ctx : Context ρ} {ms : List (Made ρ)} :
    ReachesBy q there ms (next ctx) ctx → ReachesBy q there ms (look next) ctx
  | afterAssign {name : String} {v : Value} {next : Program ρ} {ctx : Context ρ}
    {ms : List (Made ρ)} :
    ReachesBy q there ms next { ctx with scope := ctx.scope.set name v } →
      ReachesBy q there ms (assign name v next) ctx
  | afterBind {name : String} {v : Value} {next : Program ρ} {ctx : Context ρ}
    {ms : List (Made ρ)} :
    ReachesBy q there ms next { ctx with scope := ctx.scope.bind name v } →
      ReachesBy q there ms (bind name v next) ctx

/-- The run of a program from a context reaches another program in another context. -/
def Reaches (q : Program ρ) (there : Context ρ) (p : Program ρ) (ctx : Context ρ) : Prop :=
  ∃ ms, ReachesBy q there ms p ctx

/-- The run of a program from a context makes a call in another context. -/
def Makes (c : Call) (here : Context ρ) (p : Program ρ) (ctx : Context ρ) : Prop :=
  ∃ next, Reaches (call c next) here p ctx

/-! ### The steps of a run -/

namespace Reaches

variable {p q : Program ρ} {ctx ctx' there : Context ρ}

theorem refl :
  Reaches q there q there
  := ⟨[], .refl⟩

theorem afterCall {c : Call} {next : Except EvalError Step.Result → Program ρ}
    {result : Except EvalError Step.Result}
    (hcall : Play.attempt c.perform ctx = .ok result ctx')
    (h : Reaches q there (next result) ctx') :
  Reaches q there (call c next) ctx
  := by
  obtain ⟨ms, hms⟩ := h
  rw [Play.attempt_apply] at hcall
  cases hcall
  exact ⟨_, .afterCall hms⟩

theorem inTimes {count : Number} {body : Int64 → Program ρ}
    {next : Except EvalError (List Value) → Program ρ} {k : Nat} {vs : List Value}
    (hk : k < count.toInt.toInt.toNat)
    (hvs : Play.iterate (fun i => (body i).run) k 0 ctx = .ok vs ctx')
    (h : Reaches q there (body (.ofNat k)) (ctx'.enter (.ofNat k))) :
  Reaches q there (times count body next) ctx
  := by
  obtain ⟨ms, hms⟩ := h
  exact ⟨_, .inTimes hk hvs hms⟩

theorem afterTimes {count : Number} {body : Int64 → Program ρ}
    {next : Except EvalError (List Value) → Program ρ} {result : Except EvalError (List Value)}
    (htimes : Play.attempt (Play.times count fun i => (body i).run) ctx = .ok result ctx')
    (h : Reaches q there (next result) ctx') :
  Reaches q there (times count body next) ctx
  := by
  obtain ⟨ms, hms⟩ := h
  rw [Play.attempt_apply] at htimes
  cases htimes
  exact ⟨_, .afterTimes hms⟩

theorem afterLook {next : Context ρ → Program ρ} (h : Reaches q there (next ctx) ctx) :
  Reaches q there (look next) ctx
  := by
  obtain ⟨ms, hms⟩ := h
  exact ⟨ms, .afterLook hms⟩

theorem afterAssign {name : String} {v : Value}
    (h : Reaches q there p { ctx with scope := ctx.scope.set name v }) :
  Reaches q there (assign name v p) ctx
  := by
  obtain ⟨ms, hms⟩ := h
  exact ⟨ms, .afterAssign hms⟩

theorem afterBind {name : String} {v : Value}
    (h : Reaches q there p { ctx with scope := ctx.scope.bind name v }) :
  Reaches q there (bind name v p) ctx
  := by
  obtain ⟨ms, hms⟩ := h
  exact ⟨ms, .afterBind hms⟩

end Reaches

/-! ### Calls on the way -/

/-- A run begins with the calls on the way to some point, and goes on with those that are made from
there. -/
theorem ReachesBy.append_calls {p q : Program ρ} {ctx there : Context ρ} {ms : List (Made ρ)}
    (h : ReachesBy q there ms p ctx) :
  ms ++ q.calls there <+: p.calls ctx
  := by
  induction h with
  | refl => apply List.prefix_refl
  | afterCall _ ih => exact (List.prefix_cons_inj _).2 ih
  | @inTimes count body next ctx ctx' k vs ms hk hvs _ ih =>
    -- The iteration that has begun is the first one behind those that are over.
    obtain ⟨n, hn⟩ := Nat.exists_eq_add_of_lt hk
    rw [calls, hn, Nat.add_assoc, Play.gather_add _ hvs, List.append_assoc, List.append_assoc,
      Nat.zero_add, Play.gather, List.append_assoc]
    apply (List.prefix_append_right_inj _).2
    exact ih.trans (List.prefix_append _ _)
  | afterTimes _ ih =>
    rw [List.append_assoc]
    exact (List.prefix_append_right_inj _).2 ih
  | afterLook _ ih => exact ih
  | afterAssign _ ih => exact ih
  | afterBind _ ih => exact ih

/-- A run begins with the calls that it makes on the way to some point. -/
theorem ReachesBy.prefix_calls {p q : Program ρ} {ctx there : Context ρ} {ms : List (Made ρ)}
    (h : ReachesBy q there ms p ctx) :
  ms <+: p.calls ctx
  := (List.prefix_append ms _).trans h.append_calls

/-- The calls of a run are the calls that it makes. -/
theorem mem_calls_iff {p : Program ρ} {ctx : Context ρ} {m : Made ρ} :
  m ∈ p.calls ctx ↔ Makes m.call m.here p ctx
  := by
  constructor
  · intro h
    induction p generalizing ctx with
    | done result => cases h
    | call c next ih =>
      rcases List.mem_cons.1 h with rfl | h
      · exact ⟨next, .refl⟩
      · obtain ⟨next', hnext⟩ := ih _ h
        exact ⟨next', hnext.afterCall (Play.attempt_apply _ ctx)⟩
    | times count body next ihbody ihnext =>
      rcases List.mem_append.1 h with h | h
      · obtain ⟨k, vs, here, hk, hvs, hm⟩ := Play.mem_gather_iff.1 h
        rw [Nat.zero_add] at hm
        obtain ⟨next', hnext⟩ := ihbody _ hm
        exact ⟨next', hnext.inTimes hk hvs⟩
      · obtain ⟨next', hnext⟩ := ihnext _ h
        exact ⟨next', hnext.afterTimes (Play.attempt_apply _ ctx)⟩
    | look next ih =>
      obtain ⟨next', hnext⟩ := ih _ h
      exact ⟨next', hnext.afterLook⟩
    | assign name v next ih =>
      obtain ⟨next', hnext⟩ := ih h
      exact ⟨next', hnext.afterAssign⟩
    | bind name v next ih =>
      obtain ⟨next', hnext⟩ := ih h
      exact ⟨next', hnext.afterBind⟩
  · rintro ⟨next, ms, h⟩
    exact h.append_calls.subset (List.mem_append_right ms List.mem_cons_self)

end Program

/-! ### Relations along the calls on the way -/

namespace Tracks

variable {ρ : Type} [Roller ρ]

/-- What holds along every single call holds along the calls on the way to every point of a
run. -/
theorem of_reachesBy {R : List (Made ρ) → Context ρ → Context ρ → Prop} (hR : Tracks R)
    (hcall : ∀ (c : Call) ctx, R [⟨c, ctx⟩] ctx (c.perform.after ctx)) {p q : Program ρ}
    {ctx there : Context ρ} {ms : List (Made ρ)} (h : Program.ReachesBy q there ms p ctx) :
  R ms ctx there
  := by
  induction h with
  | refl => exact hR.refl there
  | @afterCall c next ctx ms _ ih => exact hR.trans (hcall c ctx) ih
  | @inTimes count body next ctx ctx' k vs ms _ hvs _ ih =>
    have hbefore := hR.after_iterate (fun i => hR.after_run hcall (body i)) k 0 ctx
    rw [Play.after, hvs] at hbefore
    exact hR.trans hbefore (hR.trans (hR.scope ctx' _) ih)
  | @afterTimes count body next ctx ms _ ih =>
    exact hR.trans (hR.after_times (fun i => hR.after_run hcall (body i)) count ctx) ih
  | afterLook _ ih => exact ih
  | afterAssign _ ih => exact hR.trans (hR.scope _ _) ih
  | afterBind _ ih => exact hR.trans (hR.scope _ _) ih

/-- What holds along every call, whichever it is, holds up to each call that a run makes. -/
theorem of_makes {R : Context ρ → Context ρ → Prop} (hR : Tracks fun _ => R)
    (hcall : ∀ (c : Call) ctx, R ctx (c.perform.after ctx)) {p : Program ρ}
    {ctx here : Context ρ} {c : Call} (h : Program.Makes c here p ctx) :
  R ctx here
  := by
  obtain ⟨next, ms, hms⟩ := h
  exact hR.of_reachesBy hcall hms

end Tracks

end Dice
