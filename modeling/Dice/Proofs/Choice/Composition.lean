import Dice.Proofs.Choice.Integral

/-!
# Choices one after another

Whatever is more extreme than an element that is kept is kept as well. So a second choice among
the kept elements ranks them as a choice among all of them does, although ties may have left more
of them than were asked for, and to keep some of what was kept is to keep the fewer of both at
once.
-/

namespace Dice.Choice

section

variable {κ : Type} [LinearOrder κ] {rank : Rank} {key : Number → κ} {vs : List Value}
  (h : rank.Keyed key (vs.map Value.total))

include h

/-- A key ranks the totals of some of the elements too. -/
theorem keyed_filter (p : Value → Bool) :
  rank.Keyed key ((vs.filter p).map Value.total)
  := by
  have hsubset : (vs.filter p).map Value.total ⊆ vs.map Value.total :=
    List.map_subset _ (List.filter_subset_self vs)
  constructor
  · intro x y hx hy
    exact h.order x y (hsubset hx) (hsubset hy)
  · intro x y hx hy
    exact h.beq x y (hsubset hx) (hsubset hy)

/-- All elements above an admitted one are admitted. -/
theorem above_filter_admits {n : Int64} {v : Value} (hv : v ∈ vs) (hadmits : admits rank n vs v) :
  above rank (vs.filter (admits rank n vs)) v.total = above rank vs v.total
  := by
  rw [above, List.countP_filter]
  apply List.countP_congr
  intro w hw
  rw [Bool.and_eq_true, and_iff_left_iff_imp]
  intro hexceeds
  apply admits_of_le h hw hv _ hadmits
  exact ((exceeds_iff_key h hw hv).1 hexceeds).le

/-- A second choice admits, of the elements that the first one admits, those that it would admit
among all. -/
theorem admits_filter_admits {n : Int64} {v : Value} (hv : v ∈ vs)
    (hadmits : admits rank n vs v) (m : Int64) :
  admits rank m (vs.filter (admits rank n vs)) v = admits rank m vs v
  := by
  rw [admits, admits, above_filter_admits h hv hadmits]

end

/-! ### Counts -/

theorem toInt_min (m n : Int64) :
  (min m n).toInt = min m.toInt n.toInt
  := by
  change (if m ≤ n then m else n).toInt = _
  by_cases h : m ≤ n
  · rw [if_pos h, min_eq_left (Int64.le_iff_toInt_le.1 h)]
  · have hlt : n.toInt < m.toInt := not_le.1 (mt Int64.le_iff_toInt_le.2 h)
    rw [if_neg h, min_eq_right hlt.le]

/-- Both of two counts admit what the lesser one admits. -/
theorem admits_min (rank : Rank) (m n : Int64) (vs : List Value) (v : Value) :
  admits rank (min m n) vs v = (admits rank m vs v && admits rank n vs v)
  := by
  rw [admits, admits, admits, toInt_min, ← Bool.decide_and]
  apply decide_eq_decide.2
  exact lt_min_iff

/-- The elements that a choice keeps. -/
def kept? (rank : Rank) (count : Int64) (vs : List Value) : Option (List Value) :=
  (byCount? .keep rank count vs).map Parted.value

/-- What is kept are the elements that are admitted. -/
theorem kept?_eq
    {κ : Type} [LinearOrder κ] {rank : Rank} {key : Number → κ} {vs : List Value}
    (h : rank.Keyed key (vs.map Value.total)) (n : Int64) :
  kept? rank n vs = some (vs.filter (admits rank n vs))
  := by
  rw [kept?, byCount?, divide?_eq h, List.partition_eq_filter_filter]
  rfl

/-- Where a key ranks the elements, keeping some of what was kept is keeping the fewer of both. -/
theorem kept?_min
    {κ : Type} [LinearOrder κ] {rank : Rank} {key : Number → κ} {vs : List Value}
    (h : rank.Keyed key (vs.map Value.total)) (m n : Int64) :
  (kept? rank n vs).bind (kept? rank m) = kept? rank (min m n) vs
  := by
  rw [kept?_eq h, kept?_eq h, Option.bind_some, kept?_eq (keyed_filter h _), List.filter_filter]
  congr 1
  apply List.filter_congr
  intro v hv
  rw [admits_min]
  cases hadmits : admits rank n vs v with
  | true => rw [admits_filter_admits h hv hadmits]
  | false => rw [Bool.and_false, Bool.and_false]

/-- Among elements with integer totals, no choice breaks off, and keeping some of what was kept is
keeping the fewer of both. So keeping as many once more changes nothing, and what a lesser count
keeps is, in its order, among what a greater one keeps. -/
theorem keep_kept (rank : Rank) {vs : List Value} (h : ∀ v ∈ vs, ∃ n, v.total = .int n) :
  (∀ m n : Int64, (kept? rank n vs).bind (kept? rank m) = kept? rank (min m n) vs)
    ∧ (∀ n : Int64, (kept? rank n vs).bind (kept? rank n) = kept? rank n vs)
    ∧ ∀ m n : Int64, m ≤ n →
      ∃ fewer more, kept? rank m vs = some fewer ∧ kept? rank n vs = some more
        ∧ fewer.Sublist more
  := by
  have hintegers : ∀ x ∈ vs.map Value.total, ∃ n, x = .int n := by
    intro x hx
    obtain ⟨v, hv, rfl⟩ := List.mem_map.1 hx
    exact h v hv
  obtain ⟨κ, _, key, hkey⟩ := (Number.keyed_integer hintegers).ranked rank
  refine ⟨kept?_min hkey, ?_, ?_⟩
  · intro n
    rw [kept?_min hkey]
    congr 1
    apply ite_self
  · intro m n hle
    refine ⟨_, _, kept?_eq hkey m, kept?_eq hkey n, ?_⟩
    have hmin : min m n = m := if_pos hle
    have hboth := kept?_min hkey m n
    rw [hmin, kept?_eq hkey n, kept?_eq hkey m, Option.bind_some,
      kept?_eq (keyed_filter hkey _), Option.some_inj] at hboth
    rw [← hboth]
    apply List.filter_sublist

/-- The least two of a roll are three elements, as two of them tie. The least of these is the least
of the roll, and the least two of them are all three. -/
theorem keep_kept_threes :
  (∀ v ∈ rolls, ∃ n, v.total = .int n)
    ∧ (kept? .lowest 2 rolls).bind (kept? .lowest 1) = some ([1].map fun n => .number (.int n))
    ∧ (kept? .lowest 2 rolls).bind (kept? .lowest 2)
      = some ([3, 1, 3].map fun n => .number (.int n))
    ∧ (1 : Int64) ≤ 2
    ∧ ∃ fewer more, kept? .lowest 1 rolls = some fewer ∧ kept? .lowest 2 rolls = some more
      ∧ fewer.Sublist more
  := by
  have hintegers : ∀ v ∈ rolls, ∃ n, v.total = .int n := by
    intro v hv
    obtain ⟨n, -, rfl⟩ := List.mem_map.1 hv
    exact ⟨n, rfl⟩
  obtain ⟨hmin, htwice, hsublist⟩ := keep_kept .lowest hintegers
  have hle : (1 : Int64) ≤ 2 := by decide
  refine ⟨hintegers, ?_, ?_, hle, hsublist 1 2 hle⟩
  · rw [hmin]
    rfl
  · rw [htwice]
    rfl

end Dice.Choice
