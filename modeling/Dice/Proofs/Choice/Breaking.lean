import Dice.Proofs.Choice.Ties

/-!
# Choices that break off

A choice sorts the totals only where it has to choose, of more elements than it counts. The sort
does not break off where there are few totals, nor where a key orders them, as it does where all of
them are numbers and no double is equal to several integers. What is left are long lists in which a
total is no number, or is tangled with others.
-/

namespace Dice.Choice

/-- A choice has to choose, and the sort of the totals breaks off. -/
def BreaksOff (rank : Rank) (count : Int64) (vs : List Value) : Prop :=
  0 < count.toInt ∧ count.toInt < vs.length ∧ sort? rank (vs.map Value.total) = none

instance (rank : Rank) (count : Int64) (vs : List Value) : Decidable (BreaksOff rank count vs) :=
  inferInstanceAs (Decidable (_ ∧ _))

variable {rank : Rank} {count : Int64} {vs : List Value}

theorem divide?_eq_none_iff :
  divide? rank count vs = none ↔ BreaksOff rank count vs
  := by
  simp only [divide?]
  split
  · next hzero => simp [BreaksOff, show ¬ 0 < count.toInt by omega]
  · split
    · next hall => simp [BreaksOff, show ¬ count.toInt < vs.length by omega]
    · rw [Option.map_eq_none_iff]
      exact ⟨fun h => ⟨by omega, by omega, h⟩, fun h => h.2.2⟩

/-- There is no choice exactly where the sort breaks off. -/
theorem byCount?_eq_none_iff (action : Action) :
  byCount? action rank count vs = none ↔ BreaksOff rank count vs
  := by
  rw [byCount?, Option.map_eq_none_iff, divide?_eq_none_iff]

theorem BreaksOff.length (h : BreaksOff rank count vs) :
  20 < vs.length
  := by
  obtain ⟨-, -, hsort⟩ := h
  by_contra hfew
  rw [not_lt, ← List.length_map Value.total] at hfew
  rw [sort?, Sort.sort?_of_length_le _ hfew] at hsort
  cases hsort

/-- Numbers that are not tangled have a key, and the sort of numbers with a key does not break
off. -/
theorem BreaksOff.tangled (h : BreaksOff rank count vs) :
  ¬ (Numeric vs ∧ Number.Untangled (vs.map Value.total))
  := by
  rintro ⟨hnum, huntangled⟩
  have hnum' : ∀ x ∈ vs.map Value.total, x.isNaN = false := by
    intro x hx
    obtain ⟨v, hv, rfl⟩ := List.mem_map.1 hx
    exact hnum v hv
  obtain ⟨κ, _, key, hkey⟩ := (Number.keyed_of_untangled hnum' huntangled).ranked rank
  obtain ⟨sorted, hsort, -⟩ := exists_sort? hkey
  rw [h.2.2] at hsort
  cases hsort

/-- A power of ten twice in a list, and its opposite twice in another: the sum is no number. -/
def cancelling : Value :=
  .list [.list [.number (.float 1e308), .number (.float 1e308)],
    .list [.number (.float (-1e308)), .number (.float (-1e308))]]

/-- Zeros and ones in turn, and a list in the midst of them whose total is no number. -/
def crossed : List Value :=
  (List.range 21).map fun i => if i = 10 then cancelling else .number (.int (.ofNat (i % 2)))

theorem breaksOff_crossed :
  BreaksOff .lowest 3 crossed
  := by decide +kernel

end Dice.Choice
