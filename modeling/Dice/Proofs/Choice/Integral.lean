import Dice.Proofs.Choice.Tiers

/-!
# Choices among integers

Integers compare exactly. So a choice among elements with integer totals is the one its count
describes: it admits the elements that fewer elements than the count are strictly more extreme
than, whatever the count.
-/

namespace Dice

/-- The integer that a number is; a double counts as zero. -/
def Number.integer : Number → Int
  | int n => n.toInt
  | float _ => 0

/-- Integers compare as integers. -/
theorem Number.keyed_integer {xs : List Number} (h : ∀ x ∈ xs, ∃ n, x = .int n) :
  Keyed integer xs
  := by
  intro x hx y hy
  obtain ⟨n, rfl⟩ := h x hx
  obtain ⟨m, rfl⟩ := h y hy
  rfl

namespace Choice

/-- Among elements with integer totals, a choice admits those that fewer elements than the count
are strictly more extreme than, in their order: it keeps them and sets the rest aside, or the other
way round, and never breaks off. It admits equal elements together, and as many elements as it
counts or all of them; without the least extreme of the tiers that it admits it would admit
fewer. -/
theorem byCount_integral (rank : Rank) (count : Int64) {vs : List Value}
    (h : ∀ v ∈ vs, ∃ n, v.total = .int n) :
  byCount? .keep rank count vs
      = some ⟨vs.filter (admits rank count vs), .list (vs.filter fun v => !admits rank count vs v)⟩
    ∧ byCount? .drop rank count vs
      = some ⟨vs.filter fun v => !admits rank count vs v, .list (vs.filter (admits rank count vs))⟩
    ∧ (∀ v ∈ vs, ∀ w ∈ vs, v.total == w.total →
      admits rank count vs v = admits rank count vs w)
    ∧ min count.toInt vs.length ≤ (vs.filter (admits rank count vs)).length
    ∧ ∀ v ∈ vs.filter (admits rank count vs),
      (∀ w ∈ vs.filter (admits rank count vs), ¬ rank.exceeds v.total w.total) →
        ((vs.filter (admits rank count vs)).filter fun w => !(w.total == v.total)).length
          < count.toInt
  := by
  have hintegers : ∀ x ∈ vs.map Value.total, ∃ n, x = .int n := by
    intro x hx
    obtain ⟨v, hv, rfl⟩ := List.mem_map.1 hx
    exact h v hv
  obtain ⟨κ, _, key, hkey⟩ := (Number.keyed_integer hintegers).ranked rank
  have hdivide : divide? rank count vs
      = some (vs.filter (admits rank count vs), vs.filter fun v => !admits rank count vs v) := by
    rw [divide?_eq hkey, List.partition_eq_filter_filter]
    rfl
  refine ⟨?_, ?_, ?_, ?_, ?_⟩
  · rw [byCount?, hdivide]
    rfl
  · rw [byCount?, hdivide]
    rfl
  · intro v hv w hw heq
    apply admits_congr hkey hv hw
    exact (hkey.beq _ _ (List.mem_map_of_mem hv) (List.mem_map_of_mem hw)).1 heq
  · apply min_le_length_admitted hkey
  · intro v hv hleast
    obtain ⟨hv, hadmits⟩ := List.mem_filter.1 hv
    apply length_without_tier hkey hv hadmits hleast

/-- The integers of a roll. -/
def rolls : List Value :=
  [3, 7, 1, 4, 3, 7, 9].map fun n => .number (.int n)

/-- The best four of a roll with two sevens, and the rest. -/
theorem byCount_sevens :
  (∀ v ∈ rolls, ∃ n, v.total = .int n)
    ∧ byCount? .keep .highest 4 rolls
      = some ⟨[7, 4, 7, 9].map fun n => .number (.int n),
        .list ([3, 1, 3].map fun n => .number (.int n))⟩
  := by
  have hintegers : ∀ v ∈ rolls, ∃ n, v.total = .int n := by
    intro v hv
    obtain ⟨n, -, rfl⟩ := List.mem_map.1 hv
    exact ⟨n, rfl⟩
  refine ⟨hintegers, ?_⟩
  rw [(byCount_integral .highest 4 hintegers).1]
  rfl

end Choice

end Dice
