import Dice.Proofs.Scope.Assignment
import Mathlib.Data.List.Forall2

/-!
# Scopes that are alike

Scopes of one depth are alike if frame by frame they bind the same names, to values that are alike.
Assigning, binding, and entering and leaving frames keep scopes alike.
-/

namespace Dice

namespace Likeness

variable {α : Type} {R S : α → α → Prop}

theorem rel_refl (hR : ∀ a, R a a) (a? : Option α) :
  Option.Rel R a? a?
  := by
  cases a? with
  | none => exact .none
  | some a => exact .some (hR a)

theorem rel_imp (hRS : ∀ a b, R a b → S a b) {a? b? : Option α} (h : Option.Rel R a? b?) :
  Option.Rel S a? b?
  := by
  cases h with
  | none => exact .none
  | some hab => exact .some (hRS _ _ hab)

end Likeness

/-! ### Frames -/

/-- Two frames that bind the same names, to values in a relation. -/
def Frame.Like (R : Value → Value → Prop) (f g : Frame) : Prop :=
  ∀ name, Option.Rel R (f.get? name) (g.get? name)

namespace Frame.Like

variable {R : Value → Value → Prop} {f g : Frame}

theorem insert (h : Like R f g) (name : String) {v w : Value} (hv : R v w) :
  Like R (f.insert name v) (g.insert name w)
  := by
  intro other
  rw [get?_insert, get?_insert]
  by_cases hother : other = name
  · rw [if_pos hother, if_pos hother]
    exact .some hv
  · rw [if_neg hother, if_neg hother]
    exact h other

theorem binds_eq (h : Like R f g) (name : String) :
  f.binds name = g.binds name
  := by
  have hname := h name
  rw [binds, binds]
  generalize f.get? name = v? at hname ⊢
  generalize g.get? name = w? at hname ⊢
  cases hname <;> rfl

end Frame.Like

/-! ### Scopes -/

namespace Scope

/-- Two scopes whose frames bind the same names, to values in a relation. -/
structure Like (R : Value → Value → Prop) (s t : Scope) : Prop where
  inner : List.Forall₂ (Frame.Like R) s.inner t.inner
  root : Frame.Like R s.root t.root

variable {R : Value → Value → Prop}

/-- Assigning within frames goes to the same frame of both. -/
theorem setIn?_like {fs gs : List Frame} (h : List.Forall₂ (Frame.Like R) fs gs) (name : String)
    {v w : Value} (hv : R v w) :
  Option.Rel (List.Forall₂ (Frame.Like R)) (setIn? name v fs) (setIn? name w gs)
  := by
  induction h with
  | nil => exact .none
  | @cons f g fs gs hf h ih =>
    rw [setIn?, setIn?, ← hf.binds_eq name]
    by_cases hbinds : f.binds name
    · rw [if_pos hbinds, if_pos hbinds]
      exact .some (h.cons (hf.insert name hv))
    · rw [if_neg hbinds, if_neg hbinds]
      generalize setIn? name v fs = fs? at ih ⊢
      generalize setIn? name w gs = gs? at ih ⊢
      cases ih with
      | none => exact .none
      | some hfs => exact .some (hfs.cons hf)

namespace Like

theorem refl (hR : ∀ v, R v v) (s : Scope) :
  Like R s s
  where
  inner := List.forall₂_same.2 fun _ _ _ => Likeness.rel_refl hR _
  root _ := Likeness.rel_refl hR _

variable {s t : Scope} {v w : Value} (h : Like R s t)

include h

theorem get (name : String) :
  Option.Rel R (s.get? name) (t.get? name)
  := by
  have hframes : List.Forall₂ (Frame.Like R) s.frames t.frames :=
    List.rel_append h.inner (List.Forall₂.nil.cons h.root)
  rw [get?, get?]
  generalize s.frames = fs at hframes ⊢
  generalize t.frames = gs at hframes ⊢
  induction hframes with
  | nil => exact .none
  | @cons f g fs gs hf hfs ih =>
    have hname := hf name
    rw [List.findSome?_cons, List.findSome?_cons]
    generalize f.get? name = v? at hname ⊢
    generalize g.get? name = w? at hname ⊢
    cases hname with
    | none => exact ih
    | some hv => exact .some hv

theorem set (hv : R v w) (name : String) :
  Like R (s.set name v) (t.set name w)
  := by
  have hinner := setIn?_like h.inner name hv
  rw [Scope.set, Scope.set]
  generalize setIn? name v s.inner = fs? at hinner ⊢
  generalize setIn? name w t.inner = gs? at hinner ⊢
  cases hinner with
  | none => exact ⟨h.inner, h.root.insert name hv⟩
  | some hfs => exact ⟨hfs, h.root⟩

theorem bind (hv : R v w) (name : String) :
  Like R (s.bind name v) (t.bind name w)
  := by
  have hinner := h.inner
  rw [Scope.bind, Scope.bind]
  generalize s.inner = fs at hinner ⊢
  generalize t.inner = gs at hinner ⊢
  cases hinner with
  | nil => exact ⟨.nil, h.root.insert name hv⟩
  | cons hf hfs => exact ⟨hfs.cons (hf.insert name hv), h.root⟩

theorem push :
  Like R s.push t.push
  := ⟨h.inner.cons fun _ => .none, h.root⟩

theorem pop :
  Like R s.pop t.pop
  := by
  have hinner := h.inner
  refine ⟨?_, h.root⟩
  rw [Scope.pop, Scope.pop]
  generalize s.inner = fs at hinner ⊢
  generalize t.inner = gs at hinner ⊢
  cases hinner with
  | nil => exact .nil
  | cons hf hfs => exact hfs

end Like

end Scope

end Dice
