import Dice.Proofs.Play.Outcome
import Dice.Proofs.Play.Reach
import Dice.Proofs.Scope.Assignment
import Mathlib.Tactic.Common

/-!
# Loops

An iteration of a repeat binds the loop index in a frame of its own. Whatever its body assigns or
binds, the frames further out bind the loop index as they did, and so a repeat leaves the depth and
the loop index as they were, also when it fails. In between it runs its body for one index after
the other, up to the first error.
-/

namespace Dice

/-! ### What calls assign -/

/-- The names that operators assign to. -/
def Operator.Slot (name : String) : Prop :=
  name = Scope.lastDropped ∨ name = Scope.lastHit

/-- An effect that assigns to the names of operators only. -/
def Effect.Assigns {ρ : Type} : Effect ρ → Prop
  | throws run => ∀ limit r name v, (run limit r).1.slot = some (name, v) → Operator.Slot name
  | sets name _ => Operator.Slot name

namespace Call

variable {ρ : Type} [Roller ρ]

omit [Roller ρ] in
theorem assigns_of_throwing
    {faces : Value} {run : Faces → Nat → ρ → Thrown Step.Result × ρ}
    (h : ∀ f limit r name v, (run f limit r).1.slot = some (name, v) → Operator.Slot name)
    {effect : Effect ρ} (heq : throwing faces run = .ok effect) :
  effect.Assigns
  := by
  unfold throwing at heq
  cases hf : Faces.ofValue? faces with
  | none =>
    rw [hf] at heq
    cases heq
  | some f =>
    rw [hf] at heq
    cases heq
    exact h f

theorem assigns_of_rollEffect
    {count : Number} {faces : Value} {effect : Effect ρ} (heq : rollEffect count faces = .ok effect) :
  effect.Assigns
  := by
  unfold rollEffect at heq
  by_cases hcount : count.toInt.toInt.toNat = 0
  · rw [if_pos hcount] at heq
    cases heq
  · rw [if_neg hcount] at heq
    apply assigns_of_throwing _ heq
    intro f limit r name v h
    cases h

theorem assigns_of_rollOneEffect
    {faces : Value} {effect : Effect ρ} (heq : rollOneEffect faces = .ok effect) :
  effect.Assigns
  := by
  apply assigns_of_throwing _ heq
  intro f limit r name v h
  cases h

theorem slot_untilHit (f : Faces) (test : Number → Bool) (label : String) (limit : Nat) (r : ρ) :
  (Thrown.untilHit f test label limit r).1.slot = none
  := by
  simp only [Thrown.untilHit]
  rcases f.drawUntil test limit r with ⟨ds, _ | d, r⟩ <;> rfl

/-- Of all the effects of calls, none assigns to another name than those of operators. -/
theorem assigns_of_effect
    {c : Call} {effect : Effect ρ} (heq : c.effect = .ok effect) :
  effect.Assigns
  := by
  cases c with
  | roll count faces => exact assigns_of_rollEffect heq
  | rollOne faces => exact assigns_of_rollOneEffect heq
  | rollUntil faces cmp threshold =>
    apply assigns_of_throwing _ heq
    intro f limit r name v h
    simp only [Thrown.map, slot_untilHit] at h
    cases h
  | redraw vs cmp threshold how =>
    cases heq
    intro limit r name v h
    cases h
  | apply op left right =>
    cases op with
    | roll => exact assigns_of_rollEffect heq
    | rollUntil cmp =>
      apply assigns_of_throwing _ heq
      intro f limit r name v h
      cases h
      right
      rfl
    | redraw how cmp =>
      cases heq
      intro limit r name v h
      cases h
    | ranked action rank =>
      obtain ⟨parted, -, rfl⟩ := of_rankedEffect heq
      left
      rfl
    | filtered action cmp =>
      cases action <;>
      · cases heq
        left
        rfl
  | applyOne op operand =>
    cases op with
    | roll => exact assigns_of_rollOneEffect heq
    | _ => cases heq

/-- What is kept by the assignments of operators is kept by every call. -/
theorem perform_keeps
    {P : Scope → Prop} (hset : ∀ s name v, Operator.Slot name → P s → P (s.set name v)) (c : Call)
    {ctx : Context ρ} (h : P ctx.scope) :
  Leaves (fun ctx => P ctx.scope) (fun _ => True) (c.perform ctx)
  := by
  rw [perform_eq]
  cases heffect : (c.effect : Except EvalError (Effect ρ)) with
  | error e => exact h
  | ok effect =>
    have hassigns := assigns_of_effect heffect
    cases effect with
    | throws run =>
      rw [Effect.playChecked, Effect.play, Play.metered]
      split
      · exact h
      · refine ⟨trivial, ?_⟩
        rcases hslot : (run ctx.allowance ctx.roller).1.slot with _ | ⟨name, v⟩
        · simp only [Context.settle, hslot]
          exact h
        · simp only [Context.settle, hslot]
          exact hset _ name v (hassigns _ _ name v hslot) h
    | sets name parted => exact ⟨trivial, hset _ name _ hassigns h⟩

end Call

/-! ### The loop index in the frames -/

namespace Scope

/-- What the frames bind the loop index to, innermost first. -/
def indices (s : Scope) : List (Option Value) :=
  s.frames.map (·.get? loopIndex)

/-- The scope of an iteration: its own frame binds the loop index, and there are frames further
out, which bind it to `outer`. -/
def Loops (outer : List (Option Value)) (s : Scope) : Prop :=
  outer ≠ [] ∧ ∃ v, s.indices = some v :: outer

/-- Two scopes of one depth with the same loop index. -/
structure SameLoop (s t : Scope) : Prop where
  depth : t.depth = s.depth
  index : t.get? loopIndex = s.get? loopIndex

theorem indices_ne_nil (s : Scope) :
  s.indices ≠ []
  := by
  simp [indices, frames]

theorem SameLoop.of_indices {s t : Scope} (h : t.indices = s.indices) :
  SameLoop s t
  where
  depth := by
    have hlength := congrArg List.length h
    simpa [indices, frames, Scope.depth] using hlength
  index := by
    have hfound := congrArg (List.findSome? id) h
    simpa [indices, get?, List.findSome?_map, Function.comp_def] using hfound

theorem Rebound.map_loopIndex {fs gs : List Frame} {v w : Value} {outer : List (Option Value)}
    (h : Rebound loopIndex v fs gs) (hfs : fs.map (·.get? loopIndex) = some w :: outer) :
  gs.map (·.get? loopIndex) = some v :: outer
  := by
  cases h with
  | here hf =>
    rw [List.map_cons, List.cons_eq_cons] at hfs
    rw [List.map_cons, Frame.get?_insert, if_pos rfl, hfs.2]
  | last hf =>
    rw [List.map_cons, List.cons_eq_cons] at hfs
    rw [List.map_cons, Frame.get?_insert, if_pos rfl, hfs.2]
  | further hf h =>
    rw [List.map_cons, List.cons_eq_cons, Frame.get?_of_not_binds hf] at hfs
    cases hfs.1

variable {outer : List (Option Value)} {s : Scope}

/-- The frame of an iteration, and those further out. -/
theorem Loops.exists_frame (h : s.Loops outer) :
  ∃ f fs v, s.inner = f :: fs ∧ f.get? loopIndex = some v
    ∧ (fs ++ [s.root]).map (·.get? loopIndex) = outer
  := by
  obtain ⟨inner, root⟩ := s
  obtain ⟨hne, v, hindices⟩ := h
  cases inner with
  | nil =>
    have houter : outer = [] := (List.cons_eq_cons.1 hindices).2.symm
    contradiction
  | cons f fs =>
    obtain ⟨hf, hfs⟩ := List.cons_eq_cons.1 hindices
    exact ⟨f, fs, v, rfl, hf, hfs⟩

theorem Loops.enter (s : Scope) (v : Value) :
  (s.push.bind loopIndex v).Loops s.indices
  := by
  refine ⟨indices_ne_nil s, v, ?_⟩
  simp [indices, frames, push, bind, Frame.insert, Frame.get?_cons]

theorem Loops.pop (h : s.Loops outer) :
  s.pop.indices = outer
  := by
  obtain ⟨f, fs, v, hinner, -, houter⟩ := h.exists_frame
  rw [indices, frames, Scope.pop, hinner]
  exact houter

/-- An assignment in an iteration leaves the loop index alone in every frame, or assigns it in the
frame of the iteration. -/
theorem Loops.set (h : s.Loops outer) (name : String) (v : Value) :
  (s.set name v).Loops outer
  := by
  obtain ⟨hne, w, hindices⟩ := h
  have hrebound := rebound_set s name v
  refine ⟨hne, ?_⟩
  by_cases hname : loopIndex = name
  · subst hname
    exact ⟨v, hrebound.map_loopIndex hindices⟩
  · exact ⟨w, (hrebound.map_get? hname).trans hindices⟩

/-- A name that is bound in an iteration is bound in its own frame. -/
theorem Loops.bind (h : s.Loops outer) (name : String) (v : Value) :
  (s.bind name v).Loops outer
  := by
  obtain ⟨f, fs, w, hinner, hf, houter⟩ := h.exists_frame
  refine ⟨h.1, ?_⟩
  simp only [indices, frames, Scope.bind, hinner, List.cons_append, List.map_cons,
    Frame.get?_insert, houter, hf]
  by_cases hname : loopIndex = name
  · exact ⟨v, by rw [if_pos hname]⟩
  · exact ⟨w, by rw [if_neg hname]⟩

end Scope

/-! ### Runs within an iteration -/

variable {ρ : Type}

theorem Context.loops_enter (ctx : Context ρ) (index : Int64) :
  (ctx.enter index).scope.Loops ctx.scope.indices
  := Scope.Loops.enter ctx.scope (.number (.int index))

/-- A repeat whose body stays within its iteration leaves the loop index of every frame as it
was. -/
theorem Play.times_indices {body : Int64 → Play ρ Value}
    (hbody : ∀ i outer ctx, ctx.scope.Loops outer →
      Leaves (fun ctx => ctx.scope.Loops outer) (fun _ => True) (body i ctx))
    (count : Number) (ctx : Context ρ) :
  Leaves (fun there => there.scope.indices = ctx.scope.indices) (fun _ => True)
    (times count body ctx)
  := by
  have hleaves : Leaves (fun there => there.scope.indices = ctx.scope.indices)
      (fun vs => ∀ v ∈ vs, True) (times count body ctx) := by
    have hleave : ∀ there : Context ρ, there.scope.Loops ctx.scope.indices →
        there.leave.scope.indices = ctx.scope.indices := fun _ h => h.pop
    refine Leaves.times hleave ?_ ?_
    · rfl
    · intro k vs there hk hvs hthere
      apply hbody
      rw [← hthere]
      apply Context.loops_enter
  exact hleaves.mono (fun _ h => h) (fun _ _ => trivial)

namespace Program

variable [Roller ρ]

/-- A program that runs in an iteration stays within it. -/
theorem run_loops (p : Program ρ) {outer : List (Option Value)} {ctx : Context ρ}
    (h : ctx.scope.Loops outer) :
  Leaves (fun ctx => ctx.scope.Loops outer) (fun _ => True) (p.run ctx)
  := by
  induction p generalizing outer ctx with
  | done result =>
    cases result with
    | error e => exact h
    | ok v => exact ⟨trivial, h⟩
  | call c next ih =>
    apply (c.perform_keeps (fun s name v _ hs => hs.set name v) h).attempt.bind
    intro result ctx' _ _ hctx'
    exact ih result hctx'
  | times count body next ihbody ihnext =>
    have htimes : Leaves (fun there => there.scope.Loops outer) (fun _ => True)
        (Play.times count (fun i => (body i).run) ctx) := by
      apply (Play.times_indices (fun i _ _ => ihbody i) count ctx).mono _ (fun _ h => h)
      intro there hthere
      rw [Scope.Loops, hthere]
      exact h
    apply htimes.attempt.bind
    intro result ctx' _ _ hctx'
    exact ihnext result hctx'
  | look next ih => exact ih ctx h
  | assign name v next ih => exact ih (h.set name v)
  | bind name v next ih => exact ih (h.bind name v)

/-- A repeat leaves the loop index of every frame as it was. -/
theorem times_indices (count : Number) (body : Int64 → Program ρ) (ctx : Context ρ) :
  ((Play.times count fun i => (body i).run).after ctx).scope.indices = ctx.scope.indices
  := (Play.times_indices (fun i _ _ => (body i).run_loops) count ctx).after

end Program

/-! ### The course of a repeat -/

namespace Play

/-- The first iterations of a repeat succeed, one after the other. Each begins where the one before
it ended, in a frame of its own that binds its index, and leaves that frame. -/
inductive Iterated (body : Int64 → Play ρ Value) (start : Context ρ) :
    Nat → List Value → Context ρ → Prop
  | none : Iterated body start 0 [] start
  | next {k : Nat} {vs : List Value} {here there : Context ρ} {v : Value} :
    Iterated body start k vs here → body (.ofNat k) (here.enter (.ofNat k)) = .ok v there →
      Iterated body start (k + 1) (vs ++ [v]) there.leave

variable {body : Int64 → Play ρ Value} {start : Context ρ}

theorem Iterated.length_eq {k : Nat} {vs : List Value} {here : Context ρ}
    (h : Iterated body start k vs here) :
  vs.length = k
  := by
  induction h with
  | none => rfl
  | next h hv ih => rw [List.length_append, ih, List.length_singleton]

/-- One more iteration begins where the others succeeded. -/
theorem iterate_succ_apply (n : Nat) (ctx : Context ρ) :
  iterate body (n + 1) 0 ctx
    = match iterate body n 0 ctx with
      | .ok vs here =>
        match body (.ofNat n) (here.enter (.ofNat n)) with
        | .ok v there => .ok (vs ++ [v]) there.leave
        | .error e there => .error e there.leave
      | .error e there => .error e there
  := by
  rw [iterate_succ, bind_apply]
  cases iterate body n 0 ctx with
  | error e there => rfl
  | ok vs here =>
    simp only [Nat.zero_add, bind_apply, inFrame_apply]
    cases body (.ofNat n) (here.enter (.ofNat n)) <;> rfl

/-- A repeat runs its body for one index after the other. Where none of these iterations fails, it
lists what they came to; else it fails as the first one does that fails. -/
theorem iterate_course (body : Int64 → Play ρ Value) (start : Context ρ) (n : Nat) :
  (∃ vs there, Iterated body start n vs there ∧ iterate body n 0 start = .ok vs there)
    ∨ ∃ k vs here e there, k < n ∧ Iterated body start k vs here
      ∧ body (.ofNat k) (here.enter (.ofNat k)) = .error e there
      ∧ iterate body n 0 start = .error e there.leave
  := by
  induction n with
  | zero => exact .inl ⟨[], start, .none, rfl⟩
  | succ n ih =>
    rw [iterate_succ_apply]
    rcases ih with ⟨vs, here, hvs, hn⟩ | ⟨k, vs, here, e, there, hk, hvs, herror, hn⟩
    · rw [hn]
      cases h : body (.ofNat n) (here.enter (.ofNat n)) with
      | ok v there => exact .inl ⟨vs ++ [v], there.leave, hvs.next h, by simp only [h]⟩
      | error e there =>
        exact .inr ⟨n, vs, here, e, there, Nat.lt_succ_self n, hvs, h, by simp only [h]⟩
    · rw [hn]
      exact .inr ⟨k, vs, here, e, there, Nat.lt_succ_of_lt hk, hvs, herror, rfl⟩

end Play

namespace Program

variable [Roller ρ] {count : Number} {body : Int64 → Program ρ} {ctx : Context ρ}

/-- The loop index of every frame is the same before each iteration. -/
theorem indices_of_iterated {k : Nat} {vs : List Value} {here : Context ρ}
    (h : Play.Iterated (fun i => (body i).run) ctx k vs here) :
  here.scope.indices = ctx.scope.indices
  := by
  induction h with
  | none => rfl
  | @next k vs here there v h hv ih =>
    have hloops := (body (.ofNat k)).run_loops (here.loops_enter (.ofNat k))
    rw [hv] at hloops
    exact hloops.2.pop.trans ih

/-- The index of an iteration is the number of iterations before it. -/
theorem toInt_index {k : Nat} (h : (k : Int) < count.toInt.toInt) :
  (Int64.ofNat k).toInt = k
  := by
  have hmax := Int64.toInt_lt count.toInt
  apply Int64.toInt_ofNat_of_lt
  omega

/-- A repeat of a negative count fails and leaves the context alone, whatever its body is. Any other
repeat runs its body for one index after the other, from zero on. If all these iterations succeed
it lists what they came to, as many values as the count says; else it fails with the very error of
the first one that fails, and runs no other. Each iteration begins one frame deeper than the repeat,
with the number of iterations before it as the loop index, and every repeat within it leaves the
depth and the loop index as they were just before. So does the repeat itself, in any case. -/
theorem times_scoped (count : Number) (body : Int64 → Program ρ) (ctx : Context ρ) :
  (count.toInt < 0 →
      Play.times count (fun i => (body i).run) ctx = .error .negativeRepeat ctx)
    ∧ (0 ≤ count.toInt →
      (∃ (n : Nat) (vs : List Value) (there : Context ρ),
        (n : Int) = count.toInt.toInt ∧ vs.length = n
          ∧ Play.Iterated (fun i => (body i).run) ctx n vs there
          ∧ Play.times count (fun i => (body i).run) ctx = .ok vs there)
        ∨ ∃ (k : Nat) (vs : List Value) (here : Context ρ) (e : EvalError) (there : Context ρ),
          (k : Int) < count.toInt.toInt
          ∧ Play.Iterated (fun i => (body i).run) ctx k vs here
          ∧ (body (.ofNat k)).run (here.enter (.ofNat k)) = .error e there
          ∧ Play.times count (fun i => (body i).run) ctx = .error e there.leave)
    ∧ (∀ (k : Nat) (vs : List Value) (here : Context ρ), (k : Int) < count.toInt.toInt →
      Play.Iterated (fun i => (body i).run) ctx k vs here →
        (here.enter (.ofNat k)).scope.depth = ctx.scope.depth + 1
          ∧ (∃ i : Int64, i.toInt = k
            ∧ (here.enter (.ofNat k)).scope.get? Scope.loopIndex = some (.number (.int i)))
          ∧ ∀ count' body' next there,
            Reaches (times count' body' next) there (body (.ofNat k)) (here.enter (.ofNat k)) →
              Scope.SameLoop there.scope
                ((Play.times count' fun i => (body' i).run).after there).scope)
    ∧ Scope.SameLoop ctx.scope ((Play.times count fun i => (body i).run).after ctx).scope
  := by
  refine ⟨?_, ?_, ?_, ?_⟩
  · intro hneg
    rw [Play.times_eq, if_pos hneg]
    rfl
  · intro hnonneg
    have hcount : (count.toInt.toInt.toNat : Int) = count.toInt.toInt := by
      rw [Int64.le_iff_toInt_le, Int64.toInt_zero] at hnonneg
      omega
    rw [Play.times_eq, if_neg (by simpa using hnonneg)]
    rcases Play.iterate_course (fun i => (body i).run) ctx count.toInt.toInt.toNat with
      ⟨vs, there, hvs, hn⟩ | ⟨k, vs, here, e, there, hk, hvs, herror, hn⟩
    · exact .inl ⟨_, vs, there, hcount, hvs.length_eq, hvs, hn⟩
    · exact .inr ⟨k, vs, here, e, there, by omega, hvs, herror, hn⟩
  · intro k vs here hk hvs
    have hsame := Scope.SameLoop.of_indices (indices_of_iterated hvs)
    refine ⟨?_, ⟨.ofNat k, toInt_index hk, ?_⟩, ?_⟩
    · rw [← hsame.depth]
      exact Scope.depth_bind _ _ _
    · simp [Context.enter, Scope.get?, Scope.frames, Scope.push, Scope.bind, Frame.insert,
        Frame.get?_cons]
    · intro count' body' next there _
      exact .of_indices (times_indices count' body' there)
  · exact .of_indices (times_indices count body ctx)

end Program

end Dice
