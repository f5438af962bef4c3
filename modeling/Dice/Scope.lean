import Dice.Value.Basic

/-!
# Scopes

Names are bound to values in a stack of frames. The outermost frame is always there; each
iteration of a repeat works in a frame of its own.
-/

namespace Dice

/-- The bindings of one frame, at most one for a name. -/
abbrev Frame := List (String × Value)

namespace Frame

/-- The value bound to a name. -/
def get? (f : Frame) (name : String) : Option Value :=
  f.lookup name

/-- Binds a name, in the place of its present binding if it has one. -/
def insert (f : Frame) (name : String) (v : Value) : Frame :=
  match f with
  | [] => [(name, v)]
  | (n, w) :: rest => if n == name then (name, v) :: rest else (n, w) :: Frame.insert rest name v

/-- Whether a name is bound. -/
def binds (f : Frame) (name : String) : Bool :=
  (f.get? name).isSome

end Frame

/-- The frames above the outermost one, innermost first, and the outermost one. -/
structure Scope where
  inner : List Frame
  root : Frame

namespace Scope

/-- The name of what the last choice left out. -/
def lastDropped : String := "_d"

/-- The name of the die that ended the last run of throws. -/
def lastHit : String := "_u"

/-- The name of the index of the innermost repeat. -/
def loopIndex : String := "_i"

/-- A single frame without bindings. -/
def empty : Scope :=
  ⟨[], []⟩

instance : Inhabited Scope := ⟨empty⟩

/-- All frames, innermost first. -/
def frames (s : Scope) : List Frame :=
  s.inner ++ [s.root]

/-- The number of frames. -/
def depth (s : Scope) : Nat :=
  s.inner.length + 1

/-- The value bound to a name in the innermost frame that binds it. -/
def get? (s : Scope) (name : String) : Option Value :=
  s.frames.findSome? (·.get? name)

/-- Assigns in the innermost of some frames that binds a name, if there is one. -/
def setIn? (name : String) (v : Value) : List Frame → Option (List Frame)
  | [] => none
  | f :: fs =>
    if f.binds name then some (f.insert name v :: fs) else (setIn? name v fs).map (f :: ·)

/-- Assigns to a name in the innermost frame that binds it, or in the outermost frame. -/
def set (s : Scope) (name : String) (v : Value) : Scope :=
  match setIn? name v s.inner with
  | some inner => { s with inner }
  | none => { s with root := s.root.insert name v }

/-- Binds a name in the innermost frame. -/
def bind (s : Scope) (name : String) (v : Value) : Scope :=
  match s.inner with
  | [] => { s with root := s.root.insert name v }
  | f :: fs => { s with inner := f.insert name v :: fs }

/-- Enters a new innermost frame. -/
def push (s : Scope) : Scope :=
  { s with inner := [] :: s.inner }

/-- Leaves the innermost frame. The outermost one stays. -/
def pop (s : Scope) : Scope :=
  { s with inner := s.inner.tail }

/-- Assigning within frames keeps their number. -/
theorem length_setIn? {name : String} {v : Value} {fs gs : List Frame}
    (h : setIn? name v fs = some gs) :
  gs.length = fs.length
  := by
  induction fs generalizing gs with
  | nil => simp [setIn?] at h
  | cons f fs ih =>
    unfold setIn? at h
    split at h
    · cases h
      rfl
    · obtain ⟨hs, ht, rfl⟩ := Option.map_eq_some_iff.1 h
      simp [ih ht]

/-- Assigning to a name keeps the depth. -/
theorem depth_set (s : Scope) (name : String) (v : Value) :
  (s.set name v).depth = s.depth
  := by
  unfold set
  split
  · rename_i inner h
    simp [depth, length_setIn? h]
  · rfl

/-- Binding a name keeps the depth. -/
theorem depth_bind (s : Scope) (name : String) (v : Value) :
  (s.bind name v).depth = s.depth
  := by
  unfold bind
  split
  · rfl
  · rename_i f fs h
    simp [depth, h]

/-- A new frame is left by the next `pop`. -/
theorem pop_push (s : Scope) :
  s.push.pop = s
  := rfl

end Scope

end Dice
