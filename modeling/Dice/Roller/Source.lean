import Dice.Roller.Replay

/-!
# Sources of chance

Dice are thrown from a replay, or from a generator of random numbers. Which generator that is, and
how it makes one from a seed, is left open. Where a console has to run, the generator of the
standard library stands in for it.
-/

namespace Dice

/-- A replay, or a generator. -/
inductive Source (γ : Type) where
  | replay (r : Replay)
  | generator (g : γ)

namespace Source

variable {γ : Type}

instance [Roller γ] : Roller (Source γ) where
  next n pos
    | .replay r =>
      let (i, r) := Roller.next n pos r
      (i, .replay r)
    | .generator g =>
      let (i, g) := Roller.next n pos g
      (i, .generator g)

/-- How many dice were thrown from a replay. -/
def draws? : Source γ → Option Nat
  | .replay r => some r.position
  | .generator _ => none

end Source

/-- The generator of the standard library as a stand-in: one of `n` faces, from three numbers of
thirty-one bits each. -/
instance : Roller StdGen where
  next n pos g :=
    let (a, g) := stdNext g
    let (b, g) := stdNext g
    let (c, g) := stdNext g
    (⟨((a * Nat.pow 2 31 + b) * Nat.pow 2 31 + c) % n, Nat.mod_lt _ pos⟩, g)

end Dice
