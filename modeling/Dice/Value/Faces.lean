import Dice.Value.Basic

/-!
# Faces

The faces of a die are counted from zero. They are read from a value, inferred from a number, and
given back as a value.
-/

namespace Dice.Faces

/-- How many faces there are. -/
def count : Faces → Nat
  | upTo n _ => n
  | listed _ rest => rest.length + 1

/-- A die has at least one face. -/
theorem count_pos (f : Faces) :
  0 < f.count
  := by
  cases f with
  | upTo n pos => exact pos
  | listed _ rest => exact Nat.succ_pos rest.length

/-- The value that lies on a face. -/
def face : (f : Faces) → Fin f.count → Value
  | upTo _ _, i => .number (.int (.ofNat (i + 1)))
  | listed first rest, i => (first :: rest).get i

/-- The number a die shows when it lands on a face. -/
def outcome (f : Faces) (i : Fin f.count) : Number :=
  (f.face i).total

/-- Whether a die with these faces can show a number. -/
def contains : Faces → Number → Bool
  | upTo n _, x =>
    x.isIntegral && ((Number.int 1).compare? x).any (·.isLE)
      && (x.compare? (.int (.ofNat n))).any (·.isLE)
  | listed first rest, x => (first :: rest).any fun v => v.total == x

/-- The faces a value stands for: the elements of a list, and for any other value the integers up
to its total. An empty list and a total below one stand for none. -/
def ofValue? : Value → Option Faces
  | .list [] => none
  | .list (v :: vs) => some (listed v vs)
  | v =>
    let n := v.total.toInt.toInt.toNat
    if pos : 0 < n then some (upTo n pos) else none

/-- The value that stands for the faces. -/
def toValue : Faces → Value
  | upTo n _ => .number (.int (.ofNat n))
  | listed first rest => .list (first :: rest)

/-- The counts of the common dice, from which the faces of a plain number are inferred. -/
def ladder : List Nat :=
  [6, 20, 100, 1000, 10000, 100000, 1000000, 10000000, 100000000, 1000000000]

/-- The count inferred past the end of the ladder. -/
def top : Nat := 2147483647

/-- The count inferred for a number: the first of the ladder that its magnitude does not
exceed. -/
def inferredCount (x : Number) : Nat :=
  (ladder.find? fun n => (x.abs.compare? (.int (.ofNat n))).any (·.isLE)).getD top

/-- An inferred count is positive. -/
theorem inferredCount_pos (x : Number) :
  0 < inferredCount x
  := by
  unfold inferredCount
  cases h : ladder.find? fun n => (x.abs.compare? (.int (.ofNat n))).any (·.isLE) with
  | none => decide
  | some n =>
    have all : ∀ n ∈ ladder, 0 < n := by decide
    exact all n (List.mem_of_find?_eq_some h)

/-- The faces inferred for a number that was never rolled. -/
def inferred (x : Number) : Faces :=
  upTo (inferredCount x) (inferredCount_pos x)

end Dice.Faces
