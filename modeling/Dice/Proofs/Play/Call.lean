import Dice.Proofs.Play.Metered
import Dice.Script

/-!
# Calls and their failures

A call is one of the four throws, or an operator applied to one operand or to two. With operands
that it accepts it has an effect: a metered run of throws, or an assignment in the scope. It fails
where its operands are refused, where a throw finds the quota spent, and where the sort of a choice
breaks off, in no other way, and a failed call leaves the context as it was.
-/

namespace Dice

/-- A call and its operands. -/
inductive Call where
  | roll (count : Number) (faces : Value)
  | rollOne (faces : Value)
  | rollUntil (faces : Value) (cmp : Comparator) (threshold : Number)
  | redraw (vs : List Value) (cmp : Comparator) (threshold : Number) (how : Redraw)
  | apply (op : Operator) (left right : Value)
  | applyOne (op : Operator) (operand : Value)

/-- What a call does that does not fail at once. -/
inductive Effect (ρ : Type) where
  /-- A metered run of throws. -/
  | throws (run : Nat → ρ → Thrown Step.Result × ρ)
  /-- A list that is returned beside a value that is set aside under a name. -/
  | sets (name : String) (parted : Parted)

/-- The call with an effect. -/
def Effect.play {ρ : Type} : Effect ρ → Play ρ Step.Result
  | throws run => Play.metered run
  | sets name parted => do
    Play.modifyScope (·.set name parted.side)
    return .value (.list parted.value)

/-- The call that fails at once with an error, or has an effect. -/
def Effect.playChecked {ρ : Type} : Except EvalError (Effect ρ) → Play ρ Step.Result
  | .error e => throw e
  | .ok effect => effect.play

/-- The run of throws with another result. -/
def Thrown.map {α β : Type} (f : α → β) (t : Thrown α) : Thrown β :=
  ⟨f t.result, t.count, t.entries, t.slot⟩

/-- The run of throws whose side result is assigned to a name. -/
def Thrown.publish (name : String) (t : Thrown Parted) : Thrown Step.Result :=
  ⟨.value (.list t.result.value), t.count, t.entries, some (name, t.result.side)⟩

namespace Call

variable {ρ : Type} [Roller ρ]

/-- Performs a call. -/
def perform : Call → Play ρ Step.Result
  | roll count faces => return .value (.list (← Play.roll count faces))
  | rollOne faces => return .value (← Play.rollOne faces).toValue
  | rollUntil faces cmp threshold => return .parted (← Play.rollUntil faces cmp threshold)
  | redraw vs cmp threshold how => return .value (.list (← Play.redraw vs cmp threshold how))
  | apply op left right => return .value (← op.apply left right)
  | applyOne op operand => return .value (← op.applyOne operand)

/-- The effect of a throw from the faces that an operand stands for. -/
def throwing (faces : Value) (run : Faces → Nat → ρ → Thrown Step.Result × ρ) :
    Except EvalError (Effect ρ) :=
  match Faces.ofValue? faces with
  | none => .error (.die .noFaces)
  | some f => .ok (.throws (run f))

/-- The effect of `roll`. -/
def rollEffect (count : Number) (faces : Value) : Except EvalError (Effect ρ) :=
  let n := count.toInt.toInt.toNat
  if n = 0 then .error .nonpositiveCount
  else
    throwing faces fun f limit r =>
      let (t, r) := Thrown.many f n (.ofList (count.chars ++ 'd' :: faces.codeChars)) limit r
      (t.map fun vs => .value (.list vs), r)

/-- The effect of `rollOne`. -/
def rollOneEffect (faces : Value) : Except EvalError (Effect ρ) :=
  throwing faces fun f limit r =>
    let (t, r) := Thrown.one f (.ofList ('1' :: 'd' :: faces.codeChars)) limit r
    (t.map fun d => .value d.toValue, r)

/-- The effect of `rollUntil`, whose parted result is handed on by `k`. -/
def untilEffect
    (faces : Value) (cmp : Comparator) (threshold : Number)
    (k : Thrown Parted → Thrown Step.Result) : Except EvalError (Effect ρ) :=
  throwing faces fun f limit r =>
    let (t, r) := Thrown.untilHit f (cmp.holds · threshold)
      (.ofList (faces.codeChars ++ 'u' :: (cmp.symbol.toList ++ threshold.chars))) limit r
    (k t, r)

/-- The effect of `redraw`. -/
def redrawEffect
    (vs : List Value) (cmp : Comparator) (threshold : Number) (how : Redraw) : Effect ρ :=
  .throws fun limit r =>
    let (t, r) := Thrown.anew how (cmp.holds · threshold) vs
      (.ofList ((Value.list vs).codeChars ++ (how.symbol ++ cmp.symbol).toList
        ++ threshold.chars)) limit r
    (t.map fun vs => .value (.list vs), r)

/-- The effect of a choice by rank, of which there is none where the sort breaks off. -/
def rankedEffect (parted? : Option Parted) : Except EvalError (Effect ρ) :=
  match parted? with
  | some parted => .ok (.sets Scope.lastDropped parted)
  | none => .error .contradictoryOrder

omit [Roller ρ] in
/-- The effect of a choice by rank is an assignment. -/
theorem of_rankedEffect {parted? : Option Parted} {effect : Effect ρ}
    (h : rankedEffect parted? = .ok effect) :
  ∃ parted, parted? = some parted ∧ effect = .sets Scope.lastDropped parted
  := by
  cases parted? with
  | none => cases h
  | some parted =>
    cases h
    exact ⟨parted, rfl, rfl⟩

omit [Roller ρ] in
/-- A choice by rank throws no dice. -/
theorem rankedEffect_ne_throws
    (parted? : Option Parted) (run : Nat → ρ → Thrown Step.Result × ρ) :
  rankedEffect parted? ≠ .ok (.throws run)
  := by
  intro h
  obtain ⟨_, _, heffect⟩ := of_rankedEffect h
  cases heffect

/-- The effect of a call, or the error with which it fails at once. -/
def effect : Call → Except EvalError (Effect ρ)
  | roll count faces => rollEffect count faces
  | rollOne faces => rollOneEffect faces
  | rollUntil faces cmp threshold => untilEffect faces cmp threshold (·.map .parted)
  | redraw vs cmp threshold how => .ok (redrawEffect vs cmp threshold how)
  | apply .roll left right => rollEffect left.total right
  | apply (.redraw how cmp) left right => .ok (redrawEffect left.elements cmp right.total how)
  | apply (.rollUntil cmp) left right =>
    untilEffect left cmp right.total (·.publish Scope.lastHit)
  | apply (.ranked action rank) left right =>
    rankedEffect (Choice.byCount? action rank right.total.toInt left.elements)
  | apply (.filtered .keep cmp) left right =>
    .ok (.sets Scope.lastDropped (Choice.byComparison cmp right.total left.elements))
  | apply (.filtered .drop cmp) left right =>
    .ok (.sets Scope.lastDropped (Choice.byComparison cmp.opposite right.total left.elements))
  | applyOne .roll operand => rollOneEffect operand
  | applyOne op _ => .error (.needsTwoOperands op)

end Call

/-! ### A call plays its effect -/

namespace Play

variable {ρ α β : Type}

/-- What follows a metered run without failing is part of the run, where it makes no more of the
result and of the scope than the run could have done. -/
theorem metered_bind
    (run : Nat → ρ → Thrown α × ρ) (run' : Nat → ρ → Thrown β × ρ) (k : α → Play ρ β)
    (h : ∀ (ctx : Context ρ) (limit : Nat) (r : ρ),
      k (run limit r).1.result (ctx.settle (run limit r).1 (run limit r).2)
        = .ok (run' limit r).1.result (ctx.settle (run' limit r).1 (run' limit r).2)) :
  metered run >>= k = metered run'
  := by
  funext ctx
  simp only [bind_apply, metered]
  by_cases hzero : ctx.allowance = 0
  · simp only [if_pos hzero]
  · simp only [if_neg hzero, h]

end Play

namespace Call

variable {ρ : Type} [Roller ρ]

omit [Roller ρ] in
/-- What follows a throw from the faces of an operand is part of its run under the condition of
`metered_bind`. -/
theorem throwing_play {α : Type}
    (faces : Value) (run : Faces → Nat → ρ → Thrown α × ρ)
    (run' : Faces → Nat → ρ → Thrown Step.Result × ρ) (k : α → Play ρ Step.Result)
    (h : ∀ (f : Faces) (ctx : Context ρ) (limit : Nat) (r : ρ),
      k (run f limit r).1.result (ctx.settle (run f limit r).1 (run f limit r).2)
        = .ok (run' f limit r).1.result (ctx.settle (run' f limit r).1 (run' f limit r).2)) :
  (match Faces.ofValue? faces with
    | none => throw (.die .noFaces)
    | some f => Play.metered (run f)) >>= k
    = Effect.playChecked (throwing faces run')
  := by
  unfold throwing
  cases Faces.ofValue? faces with
  | none => rfl
  | some f =>
    apply Play.metered_bind
    apply h f

theorem roll_play (count : Number) (faces : Value) :
  (Play.roll count faces >>= fun vs => pure (.value (.list vs)) : Play ρ Step.Result)
    = Effect.playChecked (rollEffect count faces)
  := by
  rw [Play.roll_eq, rollEffect]
  by_cases hcount : count.toInt.toInt.toNat = 0
  · simp only [if_pos hcount]
    rfl
  · simp only [if_neg hcount]
    apply throwing_play
    intro f ctx limit r
    rfl

theorem rollOne_play (faces : Value) :
  (Play.rollOne faces >>= fun d => pure (.value d.toValue) : Play ρ Step.Result)
    = Effect.playChecked (rollOneEffect faces)
  := by
  rw [Play.rollOne_eq]
  apply throwing_play
  intro f ctx limit r
  rfl

theorem rollUntil_play (faces : Value) (cmp : Comparator) (threshold : Number) :
  (Play.rollUntil faces cmp threshold >>= fun p => pure (.parted p) : Play ρ Step.Result)
    = Effect.playChecked (untilEffect faces cmp threshold (·.map .parted))
  := by
  rw [Play.rollUntil_eq]
  apply throwing_play
  intro f ctx limit r
  rfl

theorem rollUntil_publish_play
    (name : String) (faces : Value) (cmp : Comparator) (threshold : Number) :
  (Play.rollUntil faces cmp threshold >>= fun p => do
      let v ← Operator.publish name p
      pure (.value v) : Play ρ Step.Result)
    = Effect.playChecked (untilEffect faces cmp threshold (·.publish name))
  := by
  rw [Play.rollUntil_eq]
  apply throwing_play
  intro f ctx limit r
  simp only [Thrown.untilHit]
  rcases f.drawUntil (cmp.holds · threshold) limit r with ⟨ds, _ | d, r⟩
  · rfl
  · rfl

theorem redraw_play
    (vs : List Value) (cmp : Comparator) (threshold : Number) (how : Redraw) :
  (Play.redraw vs cmp threshold how >>= fun vs => pure (.value (.list vs)) : Play ρ Step.Result)
    = (redrawEffect vs cmp threshold how).play
  := by
  rw [Play.redraw_eq, redrawEffect, Effect.play]
  apply Play.metered_bind
  intro ctx limit r
  rfl

/-- A call fails at once with its error, or plays its effect. -/
theorem perform_eq (c : Call) :
  (c.perform : Play ρ Step.Result) = Effect.playChecked c.effect
  := by
  cases c with
  | roll count faces => apply roll_play
  | rollOne faces => apply rollOne_play
  | rollUntil faces cmp threshold => apply rollUntil_play
  | redraw vs cmp threshold how => apply redraw_play
  | apply op left right =>
    cases op with
    | roll =>
      simp only [perform, Operator.apply, bind_assoc, pure_bind]
      apply roll_play
    | rollUntil cmp =>
      simp only [perform, Operator.apply, bind_assoc]
      apply rollUntil_publish_play
    | redraw how cmp =>
      simp only [perform, Operator.apply, bind_assoc, pure_bind]
      apply redraw_play
    | ranked action rank =>
      simp only [perform, Operator.apply, effect]
      cases Choice.byCount? action rank right.total.toInt left.elements <;> rfl
    | filtered action cmp => cases action <;> rfl
  | applyOne op operand =>
    cases op with
    | roll =>
      simp only [perform, Operator.applyOne, bind_assoc, pure_bind]
      apply rollOne_play
    | _ => rfl

end Call

end Dice
