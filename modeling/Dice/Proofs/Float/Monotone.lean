import Dice.Proofs.Float.Order

/-!
# Rounding in order

Every integer has a nearest double, and rounding keeps the order: of two integers, the greater one
does not have the smaller double.
-/

namespace Dice

open Float.Model Float.Model.UnpackedFloat

/-! ### Rounding -/

theorem exists_roundsTo {y : ℚ} (hy : 0 ≤ y) :
  ∃ m, RoundsTo y m
  := by
  have hle := Nat.floor_le hy
  have hlt := Nat.lt_floor_add_one y
  generalize ⌊y⌋₊ = n at hle hlt
  rcases lt_trichotomy (2 * y) (2 * n + 1) with h | h | h
  · use n
    constructor
    · linarith
    · exact h.le
    · exact fun _ => ⟨by linarith, h⟩
  · -- Halfway between two naturals, the even one is chosen.
    rcases Nat.even_or_odd n with hn | hn
    · use n
      constructor
      · linarith
      · exact h.le
      · intro hodd
        exact absurd hodd (by rw [Nat.even_iff.1 hn]; decide)
    · use n + 1
      constructor
      · push_cast
        linarith
      · push_cast
        linarith
      · intro hodd
        have heven := Nat.odd_iff.1 hn
        omega
  · use n + 1
    constructor
    · push_cast
      linarith
    · push_cast
      linarith
    · intro _
      push_cast
      constructor <;> linarith

/-- A rational in a binade has a nearest double, which may be the power of two above it. -/
theorem exists_nearest {v : ℚ} {q : Int} (hmin : -1074 ≤ q) (hmax : q < 971)
    (hlow : 2 ^ 52 ≤ v / 2 ^ q) (hhigh : v / 2 ^ q < 2 ^ 53) :
  ∃ m q, IsDouble m q ∧ Nearest v m q
  := by
  obtain ⟨m, hm⟩ := exists_roundsTo (le_trans (by positivity) hlow)
  have hfull : 2 ^ 52 ≤ m := by
    have hm' : (2 : ℚ) * 2 ^ 52 < 2 * m + 2 := by linarith [hm.high]
    norm_cast at hm'
    omega
  have hle : m ≤ 2 ^ 53 := by
    have hm' : 2 * (m : ℚ) < 2 * 2 ^ 53 + 1 := by linarith [hm.low]
    norm_cast at hm'
    omega
  rcases hle.lt_or_eq with hlt | rfl
  · refine ⟨m, q, ⟨by omega, hlt, hmin, by omega, .inl hfull⟩, hm, ?_⟩
    intro _ _
    linarith
  · have hunit : v / 2 ^ (q + 1) = v / 2 ^ q / 2 := by
      rw [zpow_add_one₀ two_ne_zero, div_div]
    have hlow' := hm.low
    push_cast at hlow'
    refine ⟨2 ^ 52, q + 1, ⟨by decide, by decide, by omega, by omega, .inl le_rfl⟩, ?_, ?_⟩
    · rw [hunit]
      constructor
      · push_cast
        linarith
      · push_cast
        linarith
      · intro hodd
        cases hodd
    · intro _ _
      rw [hunit]
      linarith

/-- Rounding keeps the order. -/
theorem Nearest.mono {v v' : ℚ} {m m' : Nat} {q q' : Int} (h : Nearest v m q) (hd : IsDouble m q)
    (h' : Nearest v' m' q') (hd' : IsDouble m' q') (hlt : v < v') :
  (m : ℚ) * 2 ^ q ≤ m' * 2 ^ q'
  := by
  rcases lt_trichotomy q q' with hq | rfl | hq
  · exact (hd.lt_of_exponent_lt hd' hq).le
  · have hpos := two_zpow_pos q
    have hunits : v / 2 ^ q < v' / 2 ^ q := (div_lt_div_iff_of_pos_right hpos).2 hlt
    have hm : 2 * (m : ℚ) < 2 * m' + 2 := by linarith [h.rounds.low, h'.rounds.high]
    norm_cast at hm
    exact mul_le_mul_of_nonneg_right (Nat.cast_le.2 (by omega)) hpos.le
  · -- The lesser rational would lie in a greater binade.
    exfalso
    have hmin := hd'.min
    have hfull : 2 ^ 52 ≤ m := hd.full.resolve_right (by omega)
    have hlow : 2 ^ 54 ≤ 4 * (v / 2 ^ q) + 1 := by
      rcases hfull.eq_or_lt with hm | hm
      · exact h.below hm.symm (by omega)
      · have hm' : (2 : ℚ) ^ 52 + 1 ≤ m := by exact_mod_cast hm
        linarith [h.rounds.low]
    have hhigh : 2 * (v' / 2 ^ q') ≤ 2 ^ 54 - 1 := by
      have hm' : (m' : ℚ) + 1 ≤ 2 ^ 53 := by exact_mod_cast hd'.lt
      linarith [h'.rounds.high]
    have hpower : (2 : ℚ) ^ q' * 2 ≤ 2 ^ q := by
      rw [← zpow_add_one₀ two_ne_zero]
      exact zpow_le_zpow_right₀ one_le_two (by omega)
    apply hlt.not_ge
    calc v' = v' / 2 ^ q' * 2 ^ q' := (div_mul_cancel₀ v' (two_zpow_pos q').ne').symm
      _ ≤ 2 * (v / 2 ^ q) * 2 ^ q' :=
        mul_le_mul_of_nonneg_right (by linarith) (two_zpow_pos q').le
      _ = v / 2 ^ q * (2 ^ q' * 2) := by ring
      _ ≤ v / 2 ^ q * 2 ^ q := mul_le_mul_of_nonneg_left hpower (by linarith)
      _ = v := div_mul_cancel₀ v (two_zpow_pos q).ne'

/-! ### Integers as doubles -/

/-- The double of an integer is zero, or the nearest one on its side of zero. -/
inductive Rounded : Int → UnpackedFloat → Prop
  | zero : Rounded 0 (.zero .positive)
  | positive {n m : Nat} {q : Int} (hn : 0 < n) (h : Nearest n m q) (hd : IsDouble m q) :
      Rounded n (.finite .positive m q hd.pos)
  | negative {n m : Nat} {q : Int} (hn : 0 < n) (h : Nearest n m q) (hd : IsDouble m q) :
      Rounded (-n) (.finite .negative m q hd.pos)

namespace Rounded

variable {i j : Int} {u v : UnpackedFloat}

theorem isNaN (h : Rounded i u) :
  u.isNaN = false
  := by
  cases h <;> rfl

/-- Of two integers, the greater one does not have the smaller double. -/
theorem mono (hi : Rounded i u) (hj : Rounded j v) (hlt : i < j) :
  rational u ≤ rational v
  := by
  cases hi with
  | zero =>
    cases hj with
    | zero => exact le_rfl
    | positive hn h hd => exact (rational_positive hd).1.le
    | negative hn h hd => omega
  | positive hn h hd =>
    cases hj with
    | zero => omega
    | positive hn' h' hd' => exact h.mono hd h' hd' (by exact_mod_cast hlt)
    | negative hn' h' hd' => omega
  | negative hn h hd =>
    cases hj with
    | zero => exact (rational_negative hd).2.le
    | positive hn' h' hd' => exact (rational_negative hd).2.le.trans (rational_positive hd').1.le
    | negative hn' h' hd' =>
      apply neg_le_neg
      apply h'.mono hd' h hd
      exact_mod_cast neg_lt_neg_iff.1 hlt

end Rounded

/-- A word has a nearest double. -/
theorem exists_nearest_word {n : Nat} (hn : 0 < n) (hword : n < 2 ^ 64) :
  ∃ m q, IsDouble m q ∧ Nearest n m q
  := by
  have hlog : n.log2 < 64 := (Nat.log2_lt (Nat.ne_of_gt hn)).2 hword
  obtain ⟨hlow, hhigh⟩ := (Nat.log2_eq_iff (Nat.ne_of_gt hn)).1 rfl
  have hpos := two_zpow_pos (n.log2 - 52 : Int)
  have hlow' : (2 : ℚ) ^ n.log2 ≤ n := by exact_mod_cast hlow
  have hhigh' : (n : ℚ) < 2 ^ (n.log2 + 1) := by exact_mod_cast hhigh
  have hscale : ∀ k : Nat, (2 : ℚ) ^ (52 + k) * 2 ^ (n.log2 - 52 : Int) = 2 ^ (n.log2 + k) := by
    intro k
    rw [← two_zpow_add, ← zpow_natCast]
    congr 1
    omega
  apply exists_nearest (q := n.log2 - 52)
  · omega
  · omega
  · rw [le_div_iff₀ hpos]
    exact (hscale 0).trans_le hlow'
  · rw [div_lt_iff₀ hpos]
    exact hhigh'.trans_eq (hscale 1).symm

/-- The double of an integer. -/
theorem rounded_floatOfInt (n : Int64) :
  Rounded n.toInt (Number.floatOfInt n).toModel.unpack
  := by
  have hmin := n.le_toInt
  have hmax := n.toInt_lt
  have hneg : n < 0 ↔ n.toInt < 0 := Int64.lt_iff_toInt_lt
  rw [Number.floatOfInt]
  simp only [hneg]
  generalize n.toInt = i at hmin hmax
  rcases lt_trichotomy i 0 with hi | rfl | hi
  · obtain ⟨n, rfl⟩ : ∃ n : Nat, i = -n := ⟨i.natAbs, by omega⟩
    obtain ⟨m, q, hd, h⟩ := exists_nearest_word (n := n) (by omega) (by omega)
    rw [if_pos hi, Int.natAbs_neg, Int.natAbs_natCast, h.toFloat hd (by omega) (by omega),
      neg_ofModel hd]
    change Rounded _ (Float.ofModel (.pack (.finite .negative m q hd.pos))).toModel.unpack
    rw [hd.unpack_ofModel]
    exact .negative (by omega) h hd
  · rw [if_neg (lt_irrefl 0)]
    exact .zero
  · obtain ⟨n, rfl⟩ : ∃ n : Nat, i = n := ⟨i.natAbs, by omega⟩
    obtain ⟨m, q, hd, h⟩ := exists_nearest_word (n := n) (by omega) (by omega)
    rw [if_neg hi.not_gt, Int.natAbs_natCast, h.toFloat hd (by omega) (by omega),
      hd.unpack_ofModel]
    exact .positive (by omega) h hd

end Dice
