import Dice.EvalError
import Dice.Quota
import Dice.Roller.Basic
import Dice.Scope

/-!
# Contexts

A context is what operators share while a line is evaluated: the roller, an optional quota, an
optional history of throws, and the scope. An operator runs in a context and leaves it changed,
also when it fails.
-/

namespace Dice

/-- A line of the history: what was thrown, and what came out. -/
structure Entry where
  label : String
  result : List Value

/-- The roller, the quota, the history and the scope. -/
structure Context (ρ : Type) where
  roller : ρ
  quota : Option Quota
  history : Option (Array Entry)
  scope : Scope

/-- A computation that runs in a context. An error leaves the context as it then stands. -/
abbrev Play (ρ : Type) := EStateM EvalError (Context ρ)

namespace Context

/-- A context without quota, history or bindings. -/
def start {ρ : Type} (roller : ρ) : Context ρ :=
  ⟨roller, none, none, .empty⟩

/-- The context with a quota. -/
def withQuota {ρ : Type} (ctx : Context ρ) (q : Quota) : Context ρ :=
  { ctx with quota := some q }

/-- The context with an empty history. -/
def withHistory {ρ : Type} (ctx : Context ρ) : Context ρ :=
  { ctx with history := some #[] }

/-- The entries of the history, oldest first. -/
def entries {ρ : Type} (ctx : Context ρ) : List Entry :=
  (ctx.history.getD #[]).toList

/-- The context with the history emptied. -/
def clearHistory {ρ : Type} (ctx : Context ρ) : Context ρ :=
  { ctx with history := ctx.history.map fun _ => #[] }

end Context

namespace Play

variable {ρ : Type}

/-- The dice a call may throw where there is no quota. -/
def unlimited : Nat := UInt64.size - 1

/-- The dice the call that begins may throw. A quota with none left is an error. -/
def budget : Play ρ Nat := do
  match (← get).quota with
  | none => return unlimited
  | some q => if q.available = 0 then throw .quotaExhausted else return q.available.toNat

/-- Charges dice to the quota. -/
def charge (n : Nat) : Play ρ Unit :=
  modify fun ctx => { ctx with quota := ctx.quota.map (·.charge (.ofNat n)) }

/-- Adds an entry to the history, if one is kept. -/
def record (label : Unit → String) (result : List Value) : Play ρ Unit :=
  modify fun ctx => { ctx with history := ctx.history.map (·.push ⟨label (), result⟩) }

/-- Throws with the roller of the context. -/
def throwing {α : Type} (f : ρ → α × ρ) : Play ρ α :=
  modifyGet fun ctx =>
    let (a, roller) := f ctx.roller
    (a, { ctx with roller })

/-- Changes the scope. -/
def modifyScope (f : Scope → Scope) : Play ρ Unit :=
  modify fun ctx => { ctx with scope := f ctx.scope }

/-- The faces an operand stands for. -/
def facesOf (v : Value) : Play ρ Faces :=
  match Faces.ofValue? v with
  | some f => return f
  | none => throw (.die .noFaces)

end Play

end Dice
