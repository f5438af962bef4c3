import Dice.Proofs.Play.Program

/-!
# Maps of rollers

A map of rollers under which both hand out the same indices is a morphism. Along it, every call
and every program comes to the same result and leaves the same quota, history and scope, since
nothing but the indices of a roller is ever used.
-/

namespace Dice

/-- A map of rollers under which the same indices are handed out. -/
structure Roller.Morphism {σ ρ : Type} [Roller σ] [Roller ρ] (h : σ → ρ) : Prop where
  next_map (n : Nat) (pos : 0 < n) (s : σ) :
    Roller.next n pos (h s) = ((Roller.next n pos s).1, h (Roller.next n pos s).2)

variable {σ ρ α β : Type}

/-! ### Loops of throws -/

section

variable [Roller σ] [Roller ρ] {h : σ → ρ} (hh : Roller.Morphism h)

include hh

namespace Faces

theorem draw_map (f : Faces) (s : σ) :
  f.draw (h s) = ((f.draw s).1, h (f.draw s).2)
  := by
  simp only [draw, hh.next_map]

theorem drawMany_map (f : Faces) (n : Nat) (s : σ) :
  f.drawMany n (h s) = ((f.drawMany n s).1, h (f.drawMany n s).2)
  := by
  induction n generalizing s with
  | zero => rfl
  | succ n ih => simp only [drawMany, draw_map hh, ih]

theorem drawUntil_map (f : Faces) (test : Number → Bool) (n : Nat) (s : σ) :
  f.drawUntil test n (h s)
    = ((f.drawUntil test n s).1, (f.drawUntil test n s).2.1, h (f.drawUntil test n s).2.2)
  := by
  induction n generalizing s with
  | zero => rfl
  | succ n ih =>
    simp only [drawUntil, draw_map hh, ih]
    split <;> rfl

theorem drawWhile_map (f : Faces) (test : Number → Bool) (n : Nat) (s : σ) :
  f.drawWhile test n (h s) = ((f.drawWhile test n s).1, h (f.drawWhile test n s).2)
  := by
  induction n generalizing s with
  | zero => rfl
  | succ n ih =>
    simp only [drawWhile, draw_map hh, ih]
    split <;> rfl

end Faces

theorem redrawAll_map
    (how : Redraw) (test : Number → Bool) (vs : List Value) (n : Nat) (s : σ) :
  redrawAll how test vs n (h s)
    = ((redrawAll how test vs n s).1, (redrawAll how test vs n s).2.1,
        h (redrawAll how test vs n s).2.2)
  := by
  induction vs generalizing n s with
  | nil => rfl
  | cons v vs ih =>
    simp only [redrawAll, Value.redrawn, Faces.drawWhile_map hh, ih]
    split <;> rfl

end

/-! ### Calls -/

/-- The context with another roller. -/
def Context.map (h : σ → ρ) (ctx : Context σ) : Context ρ :=
  ⟨h ctx.roller, ctx.quota, ctx.history, ctx.scope⟩

/-- The outcome of a computation with another roller. -/
def Play.mapResult (h : σ → ρ) :
    EStateM.Result EvalError (Context σ) α → EStateM.Result EvalError (Context ρ) α
  | .ok a ctx => .ok a (ctx.map h)
  | .error e ctx => .error e (ctx.map h)

/-- Two computations that come to the same along a map of rollers. -/
def Commutes (h : σ → ρ) (m : Play σ α) (m' : Play ρ α) : Prop :=
  ∀ ctx, m' (ctx.map h) = Play.mapResult h (m ctx)

namespace Commutes

variable {h : σ → ρ}

theorem pure (a : α) :
  Commutes h (pure a) (pure a)
  := fun _ => rfl

theorem throw (e : EvalError) :
  Commutes h (throw e : Play σ α) (throw e)
  := fun _ => rfl

theorem modifyScope (f : Scope → Scope) :
  Commutes h (Play.modifyScope f) (Play.modifyScope f)
  := fun _ => rfl

theorem bind {m : Play σ α} {m' : Play ρ α} {k : α → Play σ β} {k' : α → Play ρ β}
    (hm : Commutes h m m') (hk : ∀ a, Commutes h (k a) (k' a)) :
  Commutes h (m >>= k) (m' >>= k')
  := by
  intro ctx
  rw [Play.bind_apply, Play.bind_apply, hm ctx]
  cases m ctx with
  | ok a ctx => apply hk a ctx
  | error e ctx => rfl

theorem attempt {m : Play σ α} {m' : Play ρ α} (hm : Commutes h m m') :
  Commutes h (Play.attempt m) (Play.attempt m')
  := by
  intro ctx
  rw [Play.attempt, Play.attempt, hm ctx]
  cases m ctx <;> rfl

/-- Metered runs of throws that come to the same along the map are metered calls that do. -/
theorem metered {run : Nat → σ → Thrown α × σ} {run' : Nat → ρ → Thrown α × ρ}
    (hrun : ∀ limit s, run' limit (h s) = ((run limit s).1, h (run limit s).2)) :
  Commutes h (Play.metered run) (Play.metered run')
  := by
  intro ctx
  have hallowance : (ctx.map h).allowance = ctx.allowance := rfl
  rw [Play.metered, Play.metered, hallowance]
  by_cases hzero : ctx.allowance = 0
  · rw [if_pos hzero, if_pos hzero]
    rfl
  · rw [if_neg hzero, if_neg hzero]
    simp only [Context.map, hrun]
    rfl

variable [Roller σ] [Roller ρ] (hh : Roller.Morphism h)

include hh

theorem roll (count : Number) (faces : Value) :
  Commutes h (Play.roll count faces) (Play.roll count faces)
  := by
  rw [Play.roll_eq, Play.roll_eq]
  split
  · apply throw
  · cases Faces.ofValue? faces with
    | none => apply throw
    | some f =>
      apply metered
      intro limit s
      simp only [Thrown.many, Faces.drawMany_map hh]

theorem rollOne (faces : Value) :
  Commutes h (Play.rollOne faces) (Play.rollOne faces)
  := by
  rw [Play.rollOne_eq, Play.rollOne_eq]
  cases Faces.ofValue? faces with
  | none => apply throw
  | some f =>
    apply metered
    intro limit s
    simp only [Thrown.one, Faces.draw_map hh]

theorem rollUntil (faces : Value) (cmp : Comparator) (threshold : Number) :
  Commutes h (Play.rollUntil faces cmp threshold) (Play.rollUntil faces cmp threshold)
  := by
  rw [Play.rollUntil_eq, Play.rollUntil_eq]
  cases Faces.ofValue? faces with
  | none => apply throw
  | some f =>
    apply metered
    intro limit s
    simp only [Thrown.untilHit, Faces.drawUntil_map hh]
    rcases f.drawUntil (cmp.holds · threshold) limit s with ⟨ds, _ | d, s'⟩ <;> rfl

theorem redraw (vs : List Value) (cmp : Comparator) (threshold : Number) (how : Redraw) :
  Commutes h (Play.redraw vs cmp threshold how) (Play.redraw vs cmp threshold how)
  := by
  rw [Play.redraw_eq, Play.redraw_eq]
  apply metered
  intro limit s
  simp only [Thrown.anew, redrawAll_map hh]

omit hh [Roller σ] [Roller ρ] in
theorem publish (name : String) (parted : Parted) :
  Commutes h (Operator.publish name parted) (Operator.publish name parted)
  := bind (modifyScope _) (fun _ => pure _)

theorem apply (op : Operator) (left right : Value) :
  Commutes h (op.apply left right) (op.apply left right)
  := by
  cases op with
  | roll => exact bind (roll hh _ _) (fun _ => pure _)
  | rollUntil cmp => exact bind (rollUntil hh _ _ _) (publish _)
  | redraw how cmp => exact bind (redraw hh _ _ _ _) (fun _ => pure _)
  | ranked action rank =>
    simp only [Operator.apply]
    cases Choice.byCount? action rank right.total.toInt left.elements with
    | none => apply throw
    | some parted => apply publish
  | filtered action cmp => cases action <;> apply publish

theorem applyOne (op : Operator) (operand : Value) :
  Commutes h (op.applyOne operand) (op.applyOne operand)
  := by
  cases op with
  | roll => exact bind (rollOne hh _) (fun _ => pure _)
  | _ => apply throw

/-- Every call comes to the same along a morphism of rollers. -/
theorem perform (c : Call) :
  Commutes h c.perform c.perform
  := by
  cases c with
  | roll count faces => exact bind (roll hh _ _) (fun _ => pure _)
  | rollOne faces => exact bind (rollOne hh _) (fun _ => pure _)
  | rollUntil faces cmp threshold => exact bind (rollUntil hh _ _ _) (fun _ => pure _)
  | redraw vs cmp threshold how => exact bind (redraw hh _ _ _ _) (fun _ => pure _)
  | apply op left right => exact bind (apply hh _ _ _) (fun _ => pure _)
  | applyOne op operand => exact bind (applyOne hh _ _) (fun _ => pure _)

end Commutes

/-! ### Programs -/

namespace Commutes

variable {h : σ → ρ}

theorem inFrame {body : Int64 → Play σ Value} {body' : Int64 → Play ρ Value}
    (hbody : ∀ i, Commutes h (body i) (body' i)) (index : Int64) :
  Commutes h (Play.inFrame index body) (Play.inFrame index body')
  := by
  intro ctx
  have henter : (ctx.map h).enter index = (ctx.enter index).map h := rfl
  rw [Play.inFrame_apply, Play.inFrame_apply, henter, hbody index]
  cases body index (ctx.enter index) <;> rfl

theorem iterate {body : Int64 → Play σ Value} {body' : Int64 → Play ρ Value}
    (hbody : ∀ i, Commutes h (body i) (body' i)) (n index : Nat) :
  Commutes h (Play.iterate body n index) (Play.iterate body' n index)
  := by
  induction n generalizing index with
  | zero => apply pure
  | succ n ih =>
    apply bind (inFrame hbody _)
    intro v
    apply bind (ih _)
    intro vs
    apply pure

theorem times {body : Int64 → Play σ Value} {body' : Int64 → Play ρ Value}
    (hbody : ∀ i, Commutes h (body i) (body' i)) (count : Number) :
  Commutes h (Play.times count body) (Play.times count body')
  := by
  rw [Play.times_eq, Play.times_eq]
  by_cases hneg : count.toInt < 0
  · rw [if_pos hneg, if_pos hneg]
    apply throw
  · rw [if_neg hneg, if_neg hneg]
    apply iterate hbody

end Commutes

namespace Program

/-- The program for another roller, which sees its contexts through the map. -/
def comap (h : σ → ρ) : Program ρ → Program σ
  | done result => done result
  | call c next => call c fun result => (next result).comap h
  | times count body next =>
    times count (fun i => (body i).comap h) fun result => (next result).comap h
  | look next => look fun ctx => (next (ctx.map h)).comap h
  | assign name v next => assign name v (next.comap h)
  | bind name v next => bind name v (next.comap h)

variable [Roller σ] [Roller ρ] {h : σ → ρ}

/-- Every program comes to the same along a morphism of rollers. -/
theorem run_comap (hh : Roller.Morphism h) (p : Program ρ) :
  Commutes h (p.comap h).run p.run
  := by
  induction p with
  | done result =>
    cases result with
    | error e => apply Commutes.throw
    | ok v => apply Commutes.pure
  | call c next ih =>
    apply Commutes.bind (Commutes.attempt (Commutes.perform hh c))
    exact ih
  | times count body next ihbody ihnext =>
    apply Commutes.bind (Commutes.attempt (Commutes.times ihbody count))
    exact ihnext
  | look next ih =>
    intro ctx
    exact ih (ctx.map h) ctx
  | assign name v next ih =>
    apply Commutes.bind (Commutes.modifyScope _)
    intro _
    exact ih
  | bind name v next ih =>
    apply Commutes.bind (Commutes.modifyScope _)
    intro _
    exact ih

end Program

/-- Computations that come to the same leave the same context. -/
theorem Commutes.after {h : σ → ρ} {m : Play σ α} {m' : Play ρ α} (hm : Commutes h m m')
    (ctx : Context σ) :
  m'.after (ctx.map h) = (m.after ctx).map h
  := by
  rw [Play.after, Play.after, hm ctx]
  cases m ctx <;> rfl

end Dice
