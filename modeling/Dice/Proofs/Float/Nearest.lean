import Dice.Proofs.Float.Rounding

/-!
# The nearest double

A positive rational is rounded to a significand and an exponent if it lies no further than half a
unit from them, and nearer than that where the significand is odd. Below a power of two the
doubles lie twice as close. Whatever a significand with its round and sticky bits stands for, it is
rounded to what the rational is.
-/

namespace Dice

open Float.Model Float.Model.UnpackedFloat

/-- A rational is rounded to a significand and an exponent. Below a power of two the doubles lie
twice as close, as far as there are any. -/
structure Nearest (v : ℚ) (m : Nat) (q : Int) : Prop where
  rounds : RoundsTo (v / 2 ^ q) m
  below : m = 2 ^ 52 → -1074 < q → 2 ^ 54 ≤ 4 * (v / 2 ^ q) + 1

/-- What a positive significand stands for has its leading bit. -/
theorem Within.binade
    {m : Nat} {e : Int} {acc : Accuracy} {v : ℚ} (h : Within m (v / 2 ^ e) acc) (hm : 0 < m) :
  (2 : ℚ) ^ (m.log2 + e) ≤ v ∧ v < 2 ^ ((m.log2 + 1 : Nat) + e)
  := by
  obtain ⟨hlow, hhigh⟩ := (Nat.log2_eq_iff (Nat.ne_of_gt hm)).1 rfl
  obtain ⟨hle, hlt⟩ := h.le
  have he := two_zpow_pos e
  rw [le_div_iff₀ he] at hle
  rw [div_lt_iff₀ he] at hlt
  rw [two_zpow_add, two_zpow_add]
  constructor
  · have hlow' : (2 : ℚ) ^ m.log2 ≤ m := by exact_mod_cast hlow
    exact le_trans (mul_le_mul_of_nonneg_right hlow' he.le) hle
  · have hhigh' : (m : ℚ) + 1 ≤ 2 ^ (m.log2 + 1) := by exact_mod_cast hhigh
    exact lt_of_lt_of_le hlt (mul_le_mul_of_nonneg_right hhigh' he.le)

theorem targetExponent_eq (m : Nat) (e : Int) :
  Format.binary64.targetExponent (totalExponent m e) = max (m.log2 + e - 52) (-1074)
  := by
  change max ((m.log2 + 1 + e : Int) - (53 : Nat)) (-1074) = _
  congr 1
  omega

/-- The exponent of a double is the one that its significand is shifted to. -/
theorem IsDouble.targetExponent {m : Nat} {q : Int} (hd : IsDouble m q) :
  Format.binary64.targetExponent (totalExponent m q) = q
  := by
  have hm := Nat.ne_of_gt hd.pos
  have hmin := hd.min
  have hhigh : m.log2 < 53 := (Nat.log2_lt hm).2 hd.lt
  rw [targetExponent_eq]
  rcases hd.full with hfull | hq
  · have hlow : 52 ≤ m.log2 := (Nat.le_log2 hm).2 hfull
    omega
  · omega

/-- The least significand of a binade, at the exponent below, is shifted by one. -/
theorem shiftToTargetExponent_carry {q : Int} (hq : -1074 < q) :
  shiftToTargetExponent .binary64 (2 ^ 53) (q - 1) .exact = (⟨2 ^ 52, false, false⟩, q)
  := by
  have htarget : Format.binary64.targetExponent (totalExponent (2 ^ 53) (q - 1)) = q := by
    rw [targetExponent_eq, Nat.log2_two_pow]
    omega
  have hamount : (q - (q - 1)).toNat = 1 := by omega
  rw [shiftToTargetExponent, htarget, shiftToExponent, hamount]
  congr 1
  omega

namespace Nearest

variable {v : ℚ} {m : Nat} {q : Int}

/-- What is rounded to a double lies below the end of its binade. -/
theorem lt (h : Nearest v m q) (hd : IsDouble m q) :
  v < 2 ^ (53 + q)
  := by
  have hm : (m : ℚ) + 1 ≤ 2 ^ 53 := by exact_mod_cast hd.lt
  have hhigh := h.rounds.high
  have hq := two_zpow_pos q
  have hy : v / 2 ^ q < 2 ^ 53 := by linarith
  rw [div_lt_iff₀ hq] at hy
  exact hy.trans_eq (two_zpow_add 53 q).symm

/-- What is rounded to a double is positive. -/
theorem le (h : Nearest v m q) (hd : IsDouble m q) :
  2 ^ (q - 1) ≤ v
  := by
  have hm : (1 : ℚ) ≤ m := by exact_mod_cast hd.pos
  have hlow := h.rounds.low
  have hq := two_zpow_pos q
  have hy : 1 / 2 ≤ v / 2 ^ q := by linarith
  rw [le_div_iff₀ hq] at hy
  rw [zpow_sub_one₀ two_ne_zero]
  linarith

/-- What is rounded to the least significand of a binade from below lies in the binade below. -/
theorem of_lt (h : Nearest v m q) (hd : IsDouble m q) (hq : -1074 < q) (hv : v / 2 ^ q < 2 ^ 52) :
  m = 2 ^ 52 ∧ 2 ^ (51 + q) ≤ v ∧ v < 2 ^ (52 + q)
  := by
  have hlow := h.rounds.low
  have hfull : 2 ^ 52 ≤ m := hd.full.resolve_right (by omega)
  have hm : m = 2 ^ 52 := by
    have hle : 2 * (m : ℚ) < 2 * 2 ^ 52 + 1 := by linarith
    norm_cast at hle
    omega
  have hbelow := h.below hm hq
  have hpos := two_zpow_pos q
  have hy : 2 ^ 51 ≤ v / 2 ^ q := by linarith
  rw [le_div_iff₀ hpos] at hy
  rw [div_lt_iff₀ hpos] at hv
  exact ⟨hm, (two_zpow_add 51 q).trans_le hy, hv.trans_eq (two_zpow_add 52 q).symm⟩

variable {n : Nat} {e : Int} {acc : Accuracy}

/-- A significand is shifted to the exponent of the double that it is rounded to, or to the one
below where it is rounded up to a power of two. -/
theorem targetExponent
    (h : Nearest v m q) (hd : IsDouble m q) (hv : Within n (v / 2 ^ e) acc)
    (he : e ≤ Format.binary64.targetExponent (totalExponent n e)) :
  Format.binary64.targetExponent (totalExponent n e) = q
    ∨ Format.binary64.targetExponent (totalExponent n e) = q - 1
      ∧ -1074 < q ∧ m = 2 ^ 52 ∧ v / 2 ^ q < 2 ^ 52
  := by
  have hlt := h.lt hd
  have hle := h.le hd
  have hmin := hd.min
  rw [targetExponent_eq] at he ⊢
  by_cases hn : n = 0
  · -- No bit of the significand is left, which happens at the least exponent only.
    subst hn
    rw [Nat.log2_zero] at he ⊢
    have hsmall : v < 2 ^ e := by
      have := hv.le.2
      rwa [Nat.cast_zero, zero_add, div_lt_one (two_zpow_pos e)] at this
    have hqe := lt_of_two_zpow_lt (hle.trans_lt hsmall)
    left
    omega
  · obtain ⟨hlow, hhigh⟩ := hv.binade (Nat.pos_of_ne_zero hn)
    have hupper := lt_of_two_zpow_lt (hlow.trans_lt hlt)
    rcases hmin.lt_or_eq with hq | hq
    · rcases lt_or_ge (v / 2 ^ q) (2 ^ 52) with hv | hv
      · obtain ⟨hm, hle', hlt'⟩ := h.of_lt hd hq hv
        have h₁ := lt_of_two_zpow_lt (hle'.trans_lt hhigh)
        have h₂ := lt_of_two_zpow_lt (hlow.trans_lt hlt')
        right
        exact ⟨by omega, hq, hm, hv⟩
      · rw [le_div_iff₀ (two_zpow_pos q)] at hv
        have h₁ := lt_of_two_zpow_lt (((two_zpow_add 52 q).trans_le hv).trans_lt hhigh)
        left
        omega
    · left
      omega

/-- Below a power of two, what is rounded to it is rounded to twice its significand in units of
the binade below. -/
theorem roundsTo_carry (h : Nearest v (2 ^ 52) q) (hq : -1074 < q) (hv : v / 2 ^ q < 2 ^ 52) :
  RoundsTo (v / 2 ^ (q - 1)) (2 ^ 53)
  := by
  have hbelow := h.below rfl hq
  have hunit : v / 2 ^ (q - 1) = 2 * (v / 2 ^ q) := by
    rw [zpow_sub_one₀ two_ne_zero, ← div_div, div_inv_eq_mul, mul_comm]
  rw [hunit]
  constructor
  · push_cast
    linarith
  · push_cast
    linarith
  · intro hodd
    cases hodd

/-- A significand is rounded to the double that is nearest to what it stands for. -/
theorem roundWithAccuracy
    (h : Nearest v m q) (hd : IsDouble m q) (s : Sign) (hv : Within n (v / 2 ^ e) acc)
    (he : e ≤ Format.binary64.targetExponent (totalExponent n e)) :
  UnpackedFloat.roundWithAccuracy .binary64 s n e acc = .finite s m q hd.pos
  := by
  obtain ⟨em, t, hshift⟩ : ∃ em t, shiftToTargetExponent .binary64 n e acc = (em, t) :=
    ⟨_, _, rfl⟩
  have hround : ∀ {k}, RoundsTo (v / 2 ^ t) k → em.roundedMantissa = k := by
    intro k hk
    obtain ⟨hrests, hexponent⟩ := shiftToExponent_rests hv he
    rw [shiftToTargetExponent] at hshift
    rw [hshift] at hrests hexponent
    subst hexponent
    exact hrests.within.roundToNearestEven hk
  have ht : t = Format.binary64.targetExponent (totalExponent n e) := by
    obtain ⟨-, hexponent⟩ := shiftToExponent_rests hv he
    rw [shiftToTargetExponent] at hshift
    rw [hshift] at hexponent
    exact hexponent
  rcases h.targetExponent hd hv he with htarget | ⟨htarget, hq, rfl, hsmall⟩
  · obtain rfl : t = q := ht.trans htarget
    have hm := hround h.rounds
    have hself : shiftToTargetExponent .binary64 em.roundedMantissa t .exact
        = (⟨m, false, false⟩, t) := by
      rw [hm]
      exact shiftToTargetExponent_self hd.targetExponent
    exact roundWithAccuracy_eq s hshift hself hd.pos
  · -- Rounding up to the power of two carries, and the second shift takes the carry back.
    obtain rfl : t = q - 1 := ht.trans htarget
    have hm := hround (h.roundsTo_carry hq hsmall)
    have hcarry : shiftToTargetExponent .binary64 em.roundedMantissa (q - 1) .exact
        = (⟨2 ^ 52, false, false⟩, q) := by
      rw [hm]
      exact shiftToTargetExponent_carry hq
    exact roundWithAccuracy_eq s hshift hcarry hd.pos

end Nearest

end Dice
