import Dice.Scope
import Mathlib.Logic.Function.Iterate

/-!
# Assignments

An assignment binds a name anew in one frame: the innermost one that binds it or, where none does,
the outermost one. All other frames stay as they are, and so do all other names in that frame.
-/

namespace Dice

/-! ### Bindings of a frame -/

theorem Frame.get?_cons (n other : String) (w : Value) (f : Frame) :
  Frame.get? ((n, w) :: f) other = if other = n then some w else f.get? other
  := by
  rw [get?, List.lookup_cons]
  by_cases h : other = n
  · rw [if_pos h, beq_iff_eq.2 h]
  · rw [if_neg h, beq_eq_false_iff_ne.2 h]
    rfl

/-- A name that is bound in a frame has the new value, and the others have the values they had. -/
theorem Frame.get?_insert (f : Frame) (name other : String) (v : Value) :
  (f.insert name v).get? other = if other = name then some v else f.get? other
  := by
  induction f with
  | nil => apply get?_cons
  | cons b f ih =>
    obtain ⟨n, w⟩ := b
    rw [insert]
    by_cases hn : n = name
    · subst hn
      rw [if_pos (beq_self_eq_true n), get?_cons, get?_cons]
      by_cases hother : other = n
      · rw [if_pos hother, if_pos hother]
      · rw [if_neg hother, if_neg hother, if_neg hother]
    · rw [if_neg (fun h => hn (beq_iff_eq.1 h)), get?_cons, get?_cons, ih]
      by_cases hother : other = n
      · subst hother
        rw [if_pos rfl, if_pos rfl, if_neg hn]
      · rw [if_neg hother, if_neg hother]

theorem Frame.binds_insert (f : Frame) (name other : String) (v : Value) :
  (f.insert name v).binds other ↔ other = name ∨ f.binds other
  := by
  rw [binds, get?_insert]
  by_cases hother : other = name
  · simp [hother]
  · simp [hother, binds]

theorem Frame.get?_of_not_binds {f : Frame} {name : String} (h : ¬ f.binds name) :
  f.get? name = none
  := Option.not_isSome_iff_eq_none.1 h

namespace Scope

/-! ### The frame of a name -/

/-- From some frames to others, a name is bound to a value in one of them and all the others are
the same. The one is the first that binds the name or, where none does, the last. -/
inductive Rebound (name : String) (v : Value) : List Frame → List Frame → Prop
  | here {f : Frame} {fs : List Frame} : f.binds name →
      Rebound name v (f :: fs) (f.insert name v :: fs)
  | last {f : Frame} : ¬ f.binds name → Rebound name v [f] [f.insert name v]
  | further {f : Frame} {fs gs : List Frame} : ¬ f.binds name → Rebound name v fs gs →
      Rebound name v (f :: fs) (f :: gs)

/-- From one scope to another, a name is assigned a value, and nothing else changes. -/
structure Assigned (name : String) (v : Value) (s t : Scope) : Prop where
  /-- The name has the value. -/
  get : t.get? name = some v
  /-- Every other name is bound in every frame as it was. -/
  others (other : String) : other ≠ name →
    t.frames.map (·.get? other) = s.frames.map (·.get? other)
  depth : t.depth = s.depth
  /-- The name is bound anew in its own frame only. -/
  frames : Rebound name v s.frames t.frames

namespace Rebound

variable {name : String} {v : Value} {fs gs : List Frame}

theorem findSome? (h : Rebound name v fs gs) :
  gs.findSome? (·.get? name) = some v
  := by
  induction h with
  | here hf => rw [List.findSome?_cons, Frame.get?_insert, if_pos rfl]
  | last hf => rw [List.findSome?_cons, Frame.get?_insert, if_pos rfl]
  | further hf h ih => rw [List.findSome?_cons, Frame.get?_of_not_binds hf, ih]

theorem map_get? (h : Rebound name v fs gs) {other : String} (hother : other ≠ name) :
  gs.map (·.get? other) = fs.map (·.get? other)
  := by
  induction h with
  | here hf => rw [List.map_cons, List.map_cons, Frame.get?_insert, if_neg hother]
  | last hf => rw [List.map_cons, List.map_cons, Frame.get?_insert, if_neg hother]
  | further hf h ih => rw [List.map_cons, List.map_cons, ih]

end Rebound

/-- Assigning within frames is binding the name anew, whatever frames are further out. -/
theorem rebound_of_setIn? {name : String} {v : Value} {fs gs : List Frame} (outer : List Frame)
    (h : setIn? name v fs = some gs) :
  Rebound name v (fs ++ outer) (gs ++ outer)
  := by
  induction fs generalizing gs with
  | nil => cases h
  | cons f fs ih =>
    rw [setIn?] at h
    by_cases hf : f.binds name
    · rw [if_pos hf] at h
      cases h
      apply Rebound.here hf
    · rw [if_neg hf] at h
      obtain ⟨hs, hset, rfl⟩ := Option.map_eq_some_iff.1 h
      apply Rebound.further hf (ih hset)

/-- Where no frame binds the name, none of them is assigned to. -/
theorem setIn?_eq_none {name : String} {fs : List Frame} (h : ∀ f ∈ fs, ¬ f.binds name)
    (v : Value) :
  setIn? name v fs = none
  := by
  induction fs with
  | nil => rfl
  | cons f fs ih =>
    obtain ⟨hf, hfs⟩ := List.forall_mem_cons.1 h
    rw [setIn?, if_neg hf, ih hfs]
    rfl

/-- Where no frame binds the name, it is bound in a frame that is further out. -/
theorem rebound_of_setIn?_eq_none {name : String} {v : Value} {fs outer outer' : List Frame}
    (h : setIn? name v fs = none) (houter : Rebound name v outer outer') :
  Rebound name v (fs ++ outer) (fs ++ outer')
  := by
  induction fs with
  | nil => apply houter
  | cons f fs ih =>
    rw [setIn?] at h
    by_cases hf : f.binds name
    · rw [if_pos hf] at h
      cases h
    · rw [if_neg hf] at h
      apply Rebound.further hf (ih (Option.map_eq_none_iff.1 h))

theorem rebound_root (name : String) (v : Value) (root : Frame) :
  Rebound name v [root] [root.insert name v]
  := by
  by_cases hroot : root.binds name
  · apply Rebound.here hroot
  · apply Rebound.last hroot

theorem rebound_set (s : Scope) (name : String) (v : Value) :
  Rebound name v s.frames (s.set name v).frames
  := by
  rw [set]
  cases h : setIn? name v s.inner with
  | some inner => apply rebound_of_setIn? [s.root] h
  | none => apply rebound_of_setIn?_eq_none h (rebound_root name v s.root)

/-- Assigning to a name changes nothing but the binding of that name in its frame. -/
theorem assigned_set (s : Scope) (name : String) (v : Value) :
  Assigned name v s (s.set name v)
  where
  get := (rebound_set s name v).findSome?
  others _ hother := (rebound_set s name v).map_get? hother
  depth := depth_set s name v
  frames := rebound_set s name v

/-! ### Frames that are left -/

/-- An assignment goes past the innermost frame where that does not bind the name. -/
theorem pop_set {s : Scope} {name : String} (h : ∀ f ∈ s.inner.head?, ¬ f.binds name) (v : Value) :
  (s.set name v).pop = s.pop.set name v
  := by
  obtain ⟨inner, root⟩ := s
  cases inner with
  | nil => rfl
  | cons f fs =>
    rw [pop, pop, set, set, setIn?, if_neg (h f rfl), List.tail_cons]
    cases setIn? name v fs <;> rfl

/-- What is assigned to a name is still bound to it behind frames that do not bind it, when these
are left. -/
theorem get?_pop_set {s : Scope} {name : String} (m : Nat)
    (h : ∀ f ∈ s.inner.take m, ¬ f.binds name) (v : Value) :
  (pop^[m] (s.set name v)).get? name = some v
  := by
  induction m generalizing s with
  | zero => exact (assigned_set s name v).get
  | succ m ih =>
    obtain ⟨inner, root⟩ := s
    have hhead : ∀ f ∈ inner.head?, ¬ f.binds name := by
      cases inner with
      | nil => simp
      | cons f fs => simpa using h f List.mem_cons_self
    rw [Function.iterate_succ_apply, pop_set hhead]
    apply ih
    intro f hf
    cases inner with
    | nil => simp [pop] at hf
    | cons g fs => exact h f (List.mem_cons_of_mem g hf)

end Scope

end Dice
