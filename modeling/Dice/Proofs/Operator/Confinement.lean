import Dice.Proofs.Choice.Breaking
import Dice.Proofs.Play.Metered
import Dice.Proofs.Scope.Assignment
import Dice.Operator.Apply
import Dice.Roller.Replay

/-!
# Confined effects

What an operator does to the scope is confined to one name: a run of throws assigns the die that
ended it, a choice assigns what it did not return, and the other operators assign nothing. A choice
touches nothing else at all, and what it returns and what it assigns are, interleaved, the elements
it was given. A choice by rank may break off, and then it returns and assigns nothing.
-/

namespace Dice

/-! ### Choices -/

/-- Two lists that a third one consists of, each element of the third belonging to exactly one of
the two and all of them in their order. -/
inductive Interleaved {α : Type} : List α → List α → List α → Prop
  | nil : Interleaved [] [] []
  | left {xs ys zs : List α} (x : α) : Interleaved xs ys zs → Interleaved (x :: xs) ys (x :: zs)
  | right {xs ys zs : List α} (y : α) : Interleaved xs ys zs → Interleaved xs (y :: ys) (y :: zs)

namespace Interleaved

variable {α : Type} {xs ys zs : List α}

theorem swap (h : Interleaved xs ys zs) :
  Interleaved ys xs zs
  := by
  induction h with
  | nil => apply nil
  | left x h ih => apply right x ih
  | right y h ih => apply left y ih

theorem whole (xs : List α) :
  Interleaved xs [] xs
  := by
  induction xs with
  | nil => apply nil
  | cons x xs ih => apply left x ih

theorem mem_of_left (h : Interleaved xs ys zs) {x : α} (hx : x ∈ xs) :
  x ∈ zs
  := by
  induction h with
  | nil => exact hx
  | left y h ih =>
    rcases List.mem_cons.1 hx with rfl | hx
    · apply List.mem_cons_self
    · apply List.mem_cons_of_mem y (ih hx)
  | right y h ih => apply List.mem_cons_of_mem y (ih hx)

theorem partition (p : α → Bool) (xs : List α) :
  Interleaved (xs.partition p).1 (xs.partition p).2 xs
  := by
  rw [List.partition_eq_filter_filter]
  induction xs with
  | nil => apply nil
  | cons x xs ih =>
    by_cases hx : p x
    · have hnot : ¬ (not ∘ p) x := by simp [hx]
      rw [List.filter_cons_of_pos hx, List.filter_cons_of_neg hnot]
      apply left x ih
    · have hnot : (not ∘ p) x := by simp [hx]
      rw [List.filter_cons_of_neg hx, List.filter_cons_of_pos hnot]
      apply right x ih

end Interleaved

namespace Choice

theorem downTo_interleaved (rank : Rank) (vs : List Value) (boundary : Option Number) :
  Interleaved (downTo rank vs boundary).1 (downTo rank vs boundary).2 vs
  := by
  cases boundary with
  | none => apply (Interleaved.whole vs).swap
  | some b => apply Interleaved.partition

theorem interleaved_of_divide? {rank : Rank} {count : Int64} {vs admitted rest : List Value}
    (h : divide? rank count vs = some (admitted, rest)) :
  Interleaved admitted rest vs
  := by
  simp only [divide?] at h
  split at h
  · cases h
    apply (Interleaved.whole vs).swap
  · split at h
    · cases h
      apply Interleaved.whole
    · obtain ⟨sorted, -, h⟩ := Option.map_eq_some_iff.1 h
      have hparts :=
        downTo_interleaved rank vs (boundary? count.toInt.toNat (vs.map Value.total) sorted)
      rwa [h] at hparts

theorem interleaved_of_byCount? {action : Action} {rank : Rank} {count : Int64} {vs : List Value}
    {parted : Parted} (h : byCount? action rank count vs = some parted) :
  ∃ dropped, parted.side = .list dropped ∧ Interleaved parted.value dropped vs
  := by
  obtain ⟨⟨admitted, rest⟩, hdivide, rfl⟩ := Option.map_eq_some_iff.1 h
  have hparts := interleaved_of_divide? hdivide
  cases action with
  | keep => exact ⟨_, rfl, hparts⟩
  | drop => exact ⟨_, rfl, hparts.swap⟩

theorem byComparison_interleaved (cmp : Comparator) (threshold : Number) (vs : List Value) :
  ∃ dropped, (byComparison cmp threshold vs).side = .list dropped
    ∧ Interleaved (byComparison cmp threshold vs).value dropped vs
  := ⟨_, rfl, Interleaved.partition _ vs⟩

end Choice

/-! ### Throws -/

namespace Play

variable {ρ α β : Type}

/-- A computation that leaves the scope as it was, where it succeeds. -/
def KeepsScope (m : Play ρ α) : Prop :=
  ∀ ctx a ctx', m ctx = .ok a ctx' → ctx'.scope = ctx.scope

namespace KeepsScope

theorem pure (a : α) :
  KeepsScope (pure a : Play ρ α)
  := by
  intro ctx a' ctx' h
  cases h
  rfl

theorem throw (e : EvalError) :
  KeepsScope (throw e : Play ρ α)
  := by
  intro ctx a ctx' h
  cases h

theorem bind {m : Play ρ α} {k : α → Play ρ β} (hm : KeepsScope m) (hk : ∀ a, KeepsScope (k a)) :
  KeepsScope (m >>= k)
  := by
  intro ctx b ctx' h
  rw [bind_apply] at h
  cases hctx : m ctx with
  | ok a there =>
    rw [hctx] at h
    exact (hk a there b ctx' h).trans (hm ctx a there hctx)
  | error e there =>
    rw [hctx] at h
    cases h

/-- A metered run that assigns to no name. -/
theorem metered {run : Nat → ρ → Thrown α × ρ} (h : ∀ limit r, (run limit r).1.slot = none) :
  KeepsScope (metered run)
  := by
  intro ctx a ctx' hok
  rw [Play.metered] at hok
  split at hok
  · cases hok
  · cases hok
    simp only [Context.settle, h]

variable [Roller ρ]

theorem roll (count : Number) (faces : Value) :
  KeepsScope (Play.roll count faces : Play ρ (List Value))
  := by
  rw [roll_eq]
  split
  · apply throw
  · cases Faces.ofValue? faces with
    | none => apply throw
    | some f =>
      apply metered
      intro limit r
      rfl

theorem rollUntil (faces : Value) (cmp : Comparator) (threshold : Number) :
  KeepsScope (Play.rollUntil faces cmp threshold : Play ρ Parted)
  := by
  rw [rollUntil_eq]
  cases Faces.ofValue? faces with
  | none => apply throw
  | some f =>
    apply metered
    intro limit r
    simp only [Thrown.untilHit]
    rcases f.drawUntil (cmp.holds · threshold) limit r with ⟨ds, _ | d, r⟩ <;> rfl

theorem redraw (vs : List Value) (cmp : Comparator) (threshold : Number) (how : Redraw) :
  KeepsScope (Play.redraw vs cmp threshold how : Play ρ (List Value))
  := by
  rw [redraw_eq]
  apply metered
  intro limit r
  rfl

end KeepsScope

end Play

/-! ### Operators -/

namespace Operator

variable {ρ : Type}

theorem publish_apply (name : String) (parted : Parted) (ctx : Context ρ) :
  publish name parted ctx
    = .ok (.list parted.value) { ctx with scope := ctx.scope.set name parted.side }
  := rfl

/-- A choice whose two sides are interleaved in its elements is confined to its name. -/
theorem publish_interleaved {parted : Parted} {vs dropped : List Value}
    (hside : parted.side = .list dropped) (h : Interleaved parted.value dropped vs)
    (ctx : Context ρ) :
  ∃ kept dropped scope,
    publish Scope.lastDropped parted ctx = .ok (.list kept) { ctx with scope }
      ∧ Scope.Assigned Scope.lastDropped (.list dropped) ctx.scope scope
      ∧ Interleaved kept dropped vs
  := by
  use parted.value, dropped, ctx.scope.set Scope.lastDropped parted.side, rfl
  constructor
  · rw [hside]
    apply Scope.assigned_set
  · apply h

variable [Roller ρ]

/-- A choice that breaks off fails and leaves the context alone. -/
theorem apply_of_breaksOff (action : Action) {rank : Rank} {left right : Value}
    (h : Choice.BreaksOff rank right.total.toInt left.elements) (ctx : Context ρ) :
  (ranked action rank).apply left right ctx = .error .contradictoryOrder ctx
  := by
  rw [apply, (Choice.byCount?_eq_none_iff action).2 h]
  rfl

/-- A roll and a redraw leave the scope as it was. A run of throws assigns, of all that is in the
scope, only the name of the last hit, to what the throws set aside. A choice that succeeds leaves
the roller, the quota and the history as they were. It assigns only the name of what was last
dropped, to the elements that it does not return: these and those that it returns are the elements
of its left operand, each in one of the two lists and in order. A choice by a comparison always
succeeds, and one by rank unless it breaks off, with the context as it was. It does so only among
more than twenty elements of which some total is no number, or a double is equal to several
integers. -/
theorem apply_confined (op : Operator) (left right : Value) (ctx : Context ρ) :
  match op with
  | roll | redraw _ _ =>
    ∀ v ctx', op.apply left right ctx = .ok v ctx' → ctx'.scope = ctx.scope
  | rollUntil cmp =>
    ∀ v ctx', op.apply left right ctx = .ok v ctx' →
      ∃ parted there, Play.rollUntil left cmp right.total ctx = .ok parted there
        ∧ v = .list parted.value
        ∧ Scope.Assigned Scope.lastHit parted.side ctx.scope ctx'.scope
  | filtered _ _ =>
    ∃ kept dropped scope, op.apply left right ctx = .ok (.list kept) { ctx with scope }
      ∧ Scope.Assigned Scope.lastDropped (.list dropped) ctx.scope scope
      ∧ Interleaved kept dropped left.elements
  | ranked _ rank =>
    (¬ Choice.BreaksOff rank right.total.toInt left.elements →
      ∃ kept dropped scope, op.apply left right ctx = .ok (.list kept) { ctx with scope }
        ∧ Scope.Assigned Scope.lastDropped (.list dropped) ctx.scope scope
        ∧ Interleaved kept dropped left.elements)
    ∧ (Choice.BreaksOff rank right.total.toInt left.elements →
      op.apply left right ctx = .error .contradictoryOrder ctx
        ∧ 20 < left.elements.length
        ∧ ¬ (Choice.Numeric left.elements
          ∧ Number.Untangled (left.elements.map Value.total)))
  := by
  cases op with
  | roll =>
    intro v ctx' h
    apply Play.KeepsScope.bind (Play.KeepsScope.roll left.total right) _ ctx v ctx' h
    intro vs
    apply Play.KeepsScope.pure
  | redraw how cmp =>
    intro v ctx' h
    apply Play.KeepsScope.bind (Play.KeepsScope.redraw left.elements cmp right.total how) _ ctx v
      ctx' h
    intro vs
    apply Play.KeepsScope.pure
  | rollUntil cmp =>
    intro v ctx' h
    change (Play.rollUntil left cmp right.total >>= publish Scope.lastHit) ctx = _ at h
    rw [Play.bind_apply] at h
    cases huntil : Play.rollUntil left cmp right.total ctx with
    | error e there =>
      rw [huntil] at h
      cases h
    | ok parted there =>
      rw [huntil] at h
      simp only [publish_apply] at h
      cases h
      use parted, there, rfl, rfl
      rw [← Play.KeepsScope.rollUntil left cmp right.total ctx parted there huntil]
      apply Scope.assigned_set
  | ranked action rank =>
    constructor
    · intro h
      rw [← Choice.byCount?_eq_none_iff action] at h
      obtain ⟨parted, hparted⟩ := Option.ne_none_iff_exists'.1 h
      obtain ⟨dropped, hside, hinterleaved⟩ := Choice.interleaved_of_byCount? hparted
      rw [apply, hparted]
      apply publish_interleaved hside hinterleaved
    · intro h
      exact ⟨apply_of_breaksOff action h ctx, h.length, h.tangled⟩
  | filtered action cmp =>
    cases action with
    | keep =>
      obtain ⟨dropped, hside, h⟩ := Choice.byComparison_interleaved cmp right.total left.elements
      apply publish_interleaved hside h
    | drop =>
      obtain ⟨dropped, hside, h⟩ :=
        Choice.byComparison_interleaved cmp.opposite right.total left.elements
      apply publish_interleaved hside h

/-- Zeros and ones in turn are not split into two lists, where a list in the midst of them has a
total that is no number. -/
theorem not_confined_crossed :
  ¬ ∃ kept dropped scope,
    (ranked .keep .lowest).apply (.list Choice.crossed) (.number (.int 3))
        (Context.start (⟨[0], by decide, 0⟩ : Replay))
      = .ok (.list kept) { Context.start (⟨[0], by decide, 0⟩ : Replay) with scope }
    ∧ Interleaved kept dropped Choice.crossed
  := by
  rintro ⟨kept, dropped, scope, hok, -⟩
  have hbroken : Choice.BreaksOff .lowest (Value.number (.int 3)).total.toInt
      (Value.list Choice.crossed).elements := Choice.breaksOff_crossed
  rw [apply_of_breaksOff .keep hbroken] at hok
  cases hok

end Operator

end Dice
