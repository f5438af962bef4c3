import Dice.Proofs.Play.Call

/-!
# Programs of calls

A program makes calls one after another, in a context that it may look at, and repeats other
programs to any depth. What it does next may depend on all that it has seen, failures included.
-/

namespace Dice

namespace Play

variable {ρ α β : Type}

/-- Performs a computation and hands on what it came to, also where it failed. -/
def attempt (m : Play ρ α) : Play ρ (Except EvalError α) := fun ctx =>
  match m ctx with
  | .ok a ctx => .ok (.ok a) ctx
  | .error e ctx => .ok (.error e) ctx

/-- The context that a computation leaves, also where it fails. -/
def after (m : Play ρ α) (ctx : Context ρ) : Context ρ :=
  match m ctx with
  | .ok _ ctx => ctx
  | .error _ ctx => ctx

end Play

/-- A choice by rank changes nothing but the scope, whether its sort breaks off or not. -/
theorem Call.after_ranked {ρ : Type} [Roller ρ]
    (action : Action) (rank : Rank) (left right : Value) (ctx : Context ρ) :
  ∃ scope, (apply (.ranked action rank) left right).perform.after ctx = { ctx with scope }
  := by
  rw [perform_eq, effect]
  cases Choice.byCount? action rank right.total.toInt left.elements with
  | none => exact ⟨ctx.scope, rfl⟩
  | some parted => exact ⟨_, rfl⟩

/-! ### Repeats at a context -/

/-- The context in which a repeat runs its body for an index. -/
def Context.enter {ρ : Type} (ctx : Context ρ) (index : Int64) : Context ρ :=
  { ctx with scope := ctx.scope.push.bind Scope.loopIndex (.number (.int index)) }

/-- The context without its innermost frame. -/
def Context.leave {ρ : Type} (ctx : Context ρ) : Context ρ :=
  { ctx with scope := ctx.scope.pop }

namespace Play

variable {ρ : Type}

/-- The frame of an iteration is left in any case. -/
theorem inFrame_apply (index : Int64) (body : Int64 → Play ρ Value) (ctx : Context ρ) :
  inFrame index body ctx
    = match body index (ctx.enter index) with
      | .ok v ctx => .ok v ctx.leave
      | .error e ctx => .error e ctx.leave
  := by
  rw [inFrame, ← Context.enter]
  cases body index (ctx.enter index) <;> rfl

/-- A repeat refuses a negative count, and otherwise iterates its body from the index zero. -/
theorem times_eq (count : Number) (body : Int64 → Play ρ Value) :
  times count body
    = if count.toInt < 0 then throw .negativeRepeat else iterate body count.toInt.toInt.toNat 0
  := rfl

end Play

/-! ### Programs -/

/-- A program of calls. -/
inductive Program (ρ : Type) where
  /-- Ends with a value or with an error. -/
  | done (result : Except EvalError Value)
  /-- Makes a call and goes on with what it came to. -/
  | call (c : Call) (next : Except EvalError Step.Result → Program ρ)
  /-- Repeats a program and goes on with what the repeat came to. -/
  | times (count : Number) (body : Int64 → Program ρ)
    (next : Except EvalError (List Value) → Program ρ)
  /-- Looks at the context and goes on. -/
  | look (next : Context ρ → Program ρ)
  /-- Assigns to a name and goes on. -/
  | assign (name : String) (v : Value) (next : Program ρ)
  /-- Binds a name and goes on. -/
  | bind (name : String) (v : Value) (next : Program ρ)

namespace Program

variable {ρ : Type}

/-- Goes on with the value that a call comes to, or fails as the call does. -/
def andThen (next : Value → Program ρ) : Except EvalError Step.Result → Program ρ
  | .ok result => next (result.value?.getD (.list []))
  | .error e => done (.error e)

variable [Roller ρ]

/-- Runs a program. -/
def run : Program ρ → Play ρ Value
  | done (.ok v) => return v
  | done (.error e) => throw e
  | call c next => Play.attempt c.perform >>= fun result => (next result).run
  | times count body next =>
    Play.attempt (Play.times count fun i => (body i).run) >>= fun result => (next result).run
  | look next => get >>= fun ctx => (next ctx).run
  | assign name v next => Play.modifyScope (·.set name v) >>= fun _ => next.run
  | bind name v next => Play.modifyScope (·.bind name v) >>= fun _ => next.run

end Program

end Dice
