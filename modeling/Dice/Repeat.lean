import Dice.Context

/-!
# Repeats

A repeat runs a body some number of times and lists what it comes to. Every run has a frame of its
own, in which the index of the run is bound; the frame goes when the run ends, also by an error. It
goes as well where a sort breaks off, although nobody looks at the scope after that.
-/

namespace Dice.Play

variable {ρ : Type}

/-- Runs a body in a new frame that binds the index. -/
def inFrame (index : Int64) (body : Int64 → Play ρ Value) : Play ρ Value := fun ctx =>
  let inner := ctx.scope.push.bind Scope.loopIndex (.number (.int index))
  match body index { ctx with scope := inner } with
  | .ok v ctx => .ok v { ctx with scope := ctx.scope.pop }
  | .error e ctx => .error e { ctx with scope := ctx.scope.pop }

/-- Runs a body `n` times, with indices from `index` on. The first error ends the runs. -/
def iterate (body : Int64 → Play ρ Value) : (n index : Nat) → Play ρ (List Value)
  | 0, _ => return []
  | n + 1, index => do
    let v ← inFrame (.ofNat index) body
    let vs ← iterate body n (index + 1)
    return v :: vs

/-- Runs a body as often as a count says. -/
def times (count : Number) (body : Int64 → Play ρ Value) : Play ρ (List Value) :=
  let n := count.toInt
  if n < 0 then throw .negativeRepeat else iterate body n.toInt.toNat 0

end Dice.Play
