import Dice.Roller.Basic

/-!
# Replays

A replay hands out a fixed list of indices, over and over. An index is reduced modulo the number
of faces, so one list serves dice of every size.
-/

namespace Dice

/-- A nonempty list of indices, and how many have been handed out. -/
structure Replay where
  indices : List Nat
  nonempty : indices ≠ []
  position : Nat

namespace Replay

/-- The replay of a list from its beginning. An empty list has none. -/
def ofList? (indices : List Nat) : Option Replay :=
  if h : indices = [] then none else some ⟨indices, h, 0⟩

/-- The index at the present position, before it is reduced. -/
def current (r : Replay) : Nat :=
  r.indices.get ⟨r.position % r.indices.length, Nat.mod_lt _ (List.length_pos_iff.2 r.nonempty)⟩

instance : Roller Replay where
  next n pos r := (⟨r.current % n, Nat.mod_lt _ pos⟩, { r with position := r.position + 1 })

/-- Reduces the next indices to a list of sizes, and gives the replay after them. -/
def nextAll : List { n : Nat // 0 < n } → Replay → List Nat × Replay
  | [], r => ([], r)
  | n :: ns, r =>
    let (i, r) := Roller.next n.1 n.2 r
    let (is, r) := nextAll ns r
    (i :: is, r)

end Replay

end Dice
