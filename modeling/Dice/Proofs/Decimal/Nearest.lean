import Dice.Decimal.Basic
import Dice.Proofs.Float.Arithmetic

/-!
# The double nearest to a decimal

A decimal is converted to the double that is nearest to it: by one product or quotient of doubles
where its digits and its power of ten are doubles, and otherwise by one of naturals.
-/

namespace Dice

open Float.Model Float.Model.UnpackedFloat

/-- The rational that a decimal is. -/
def Decimal.value (d : Decimal) : ℚ :=
  d.digits * 10 ^ d.exponent

/-! ### Powers of ten -/

theorem two_zpow_le_ten_zpow {k : Int} (hk : 0 ≤ k) :
  (2 : ℚ) ^ k ≤ 10 ^ k
  := zpow_le_zpow_left₀ hk (by norm_num) (by norm_num)

theorem ten_zpow_le_two_zpow {k : Int} (hk : k ≤ 0) :
  (10 : ℚ) ^ k ≤ 2 ^ k
  := by
  have h := two_zpow_le_ten_zpow (Int.neg_nonneg_of_nonpos hk)
  have h' := inv_anti₀ (two_zpow_pos (-k)) h
  rwa [zpow_neg, zpow_neg, inv_inv, inv_inv] at h'

theorem ten_zpow_of_nonneg {k : Int} (hk : 0 ≤ k) :
  (10 : ℚ) ^ k = (10 ^ k.toNat : Nat)
  := by
  rw [Nat.cast_pow, Nat.cast_ofNat, ← zpow_natCast, Int.toNat_of_nonneg hk]

theorem ten_zpow_of_nonpos {k : Int} (hk : k ≤ 0) :
  (10 : ℚ) ^ k = 1 / (10 ^ (-k).toNat : Nat)
  := by
  rw [← ten_zpow_of_nonneg (Int.neg_nonneg_of_nonpos hk), zpow_neg, one_div, inv_inv]

/-! ### The long way -/

namespace Nearest

variable {c m : Nat} {k q : Int}

theorem digits_pos (h : Nearest (c * 10 ^ k) m q) (hd : IsDouble m q) :
  0 < c
  := by
  by_contra hc
  obtain rfl : c = 0 := by omega
  have hle := h.le hd
  have hpos := two_zpow_pos (q - 1)
  rw [Nat.cast_zero, zero_mul] at hle
  linarith

/-- What is nearest to a double is below the powers of ten that are cut off. -/
theorem exponent_le (h : Nearest (c * 10 ^ k) m q) (hd : IsDouble m q) :
  k ≤ 2 ^ 11
  := by
  by_contra hk
  have hmax := hd.max
  have hc : (1 : ℚ) ≤ c := by exact_mod_cast h.digits_pos hd
  have hpower : (2 : ℚ) ^ k ≤ 10 ^ k := two_zpow_le_ten_zpow (by omega)
  have hten := (two_zpow_pos k).trans_le hpower
  have hlt := lt_of_two_zpow_lt
    ((hpower.trans (le_mul_of_one_le_left hten.le hc)).trans_lt (h.lt hd))
  omega

/-- What is nearest to a double is above the powers of ten that are cut off. -/
theorem le_exponent (h : Nearest (c * 10 ^ k) m q) (hd : IsDouble m q) :
  -(2 ^ 11 + c.log2 : Int) ≤ k
  := by
  by_contra hk
  have hmin := hd.min
  have hc : (c : ℚ) < 2 ^ (c.log2 + 1) := by exact_mod_cast Nat.lt_log2_self
  have hpower : (10 : ℚ) ^ k ≤ 2 ^ k := ten_zpow_le_two_zpow (by omega)
  have hlt : (2 : ℚ) ^ (q - 1) < 2 ^ ((c.log2 + 1 : Nat) + k) := by
    calc (2 : ℚ) ^ (q - 1) ≤ c * 10 ^ k := h.le hd
      _ ≤ c * 2 ^ k := mul_le_mul_of_nonneg_left hpower c.cast_nonneg
      _ < 2 ^ (c.log2 + 1) * 2 ^ k := mul_lt_mul_of_pos_right hc (two_zpow_pos k)
      _ = 2 ^ ((c.log2 + 1 : Nat) + k) := (two_zpow_add _ _).symm
  have hlt' := lt_of_two_zpow_lt hlt
  omega

/-- A decimal is rounded to the double that is nearest to it. -/
theorem ofScientific (h : Nearest (c * 10 ^ k) m q) (hd : IsDouble m q) :
  UnpackedFloat.ofScientific .binary64 c k = .finite .positive m q hd.pos
  := by
  have hc := h.digits_pos hd
  have hle := h.exponent_le hd
  have hge := h.le_exponent hd
  rw [UnpackedFloat.ofScientific, dif_neg hc.ne', if_neg (by change ¬ k > 2 ^ 11; omega),
    if_neg (by change ¬ k < -((2 ^ 11 : Int) + _); omega)]
  split
  · rename_i hk
    have hvalue : ((c <<< 53 : Nat) : ℚ) * 2 ^ (-53 : Int) * ((10 ^ k.toNat : Nat) * 2 ^ (0 : Int))
        = c * 10 ^ k := by
      have hunit : (2 : ℚ) ^ 53 * 2 ^ (-53 : Int) = 1 := by
        rw [← two_zpow_add]
        exact zpow_zero 2
      rw [Nat.shiftLeft_eq, Nat.cast_mul, Nat.cast_pow, Nat.cast_ofNat, mul_assoc (c : ℚ), hunit,
        mul_one, zpow_zero, mul_one, ten_zpow_of_nonneg hk]
    have hlog : 52 ≤ ((c <<< 53) * 10 ^ k.toNat).log2 := by
      have hpower : 0 < 10 ^ k.toNat := Nat.pow_pos (by decide)
      have hbits : 2 ^ 53 ≤ (c <<< 53) * 10 ^ k.toNat := by
        rw [Nat.shiftLeft_eq]
        calc 2 ^ 53 ≤ c * 2 ^ 53 := Nat.le_mul_of_pos_left _ hc
          _ ≤ c * 2 ^ 53 * 10 ^ k.toNat := Nat.le_mul_of_pos_right _ hpower
      exact (Nat.le_log2 (by omega)).2 (by omega)
    rw [← hvalue] at h
    exact h.mul hd _ _ hlog
  · rename_i hk
    have hvalue : (c : ℚ) * 2 ^ (0 : Int) / ((10 ^ (-k).toNat : Nat) * 2 ^ (0 : Int))
        = c * 10 ^ k := by
      rw [zpow_zero, mul_one, mul_one, ten_zpow_of_nonpos (by omega), mul_one_div]
    rw [← hvalue] at h
    exact h.div hd _ _

end Nearest

/-! ### The short way -/

/-- A power of ten up to the twenty-second is a double. -/
theorem exactlyRepresentablePowersOfTen_eq : ∀ i : Fin 23,
  Float.exactlyRepresentablePowersOfTen[i]
    = .ofModel (.pack (UnpackedFloat.ofNat .binary64 (10 ^ i.val)))
  := by
  decide +kernel

theorem exists_isDouble_power (i : Nat) (hi : i < Float.exactlyRepresentablePowersOfTen.size) :
  ∃ m q, ∃ hd : IsDouble m q, (m : ℚ) * 2 ^ q = (10 ^ i : Nat)
    ∧ Float.exactlyRepresentablePowersOfTen[i] = .ofModel (.pack (.finite .positive m q hd.pos))
  := by
  have hi' : i < 23 := hi
  have hfive : 5 ^ i < 2 ^ 53 := by
    calc 5 ^ i ≤ 5 ^ 22 := Nat.pow_le_pow_right (by decide) (Nat.le_of_lt_succ hi')
      _ < 2 ^ 53 := by decide
  obtain ⟨m, q, hd, -, hvalue⟩ := IsDouble.exists_of_small
    (Nat.pow_pos (by decide)) hfive (e := i) (by omega) (by omega)
  have hten : (m : ℚ) * 2 ^ q = (10 ^ i : Nat) := by
    rw [hvalue, zpow_natCast]
    push_cast
    rw [← mul_pow]
    norm_num
  have hnearest := hd.nearest
  rw [hten] at hnearest
  refine ⟨m, q, hd, hten, ?_⟩
  rw [← hnearest.ofNat hd (Nat.pow_pos (by decide))]
  exact exactlyRepresentablePowersOfTen_eq ⟨i, hi'⟩

/-- A word of fifty-three bits at most is a double. -/
theorem exists_isDouble_word {n : Nat} (hn : 0 < n) (hsmall : n < 2 ^ 53) :
  ∃ m q, ∃ hd : IsDouble m q, 2 ^ 52 ≤ m ∧ (m : ℚ) * 2 ^ q = n
    ∧ n.toUInt64.toFloat = .ofModel (.pack (.finite .positive m q hd.pos))
  := by
  obtain ⟨m, q, hd, hfull, hvalue⟩ := IsDouble.exists_of_small hn hsmall (e := 0) (by omega) (by omega)
  have hn' : (m : ℚ) * 2 ^ q = n := by
    rw [hvalue, zpow_zero, mul_one]
  have hnearest := hd.nearest
  rw [hn'] at hnearest
  exact ⟨m, q, hd, hfull, hn', hnearest.toFloat hd hn (by omega)⟩

/-! ### Decimals -/

/-- A decimal is converted to the double that is nearest to it. -/
theorem Decimal.toFloat_of_nearest
    {d : Decimal} {m : Nat} {q : Int} (h : Nearest d.value m q) (hd : IsDouble m q) :
  d.toFloat = .ofModel (.pack (.finite .positive m q hd.pos))
  := by
  have hdigits := h.digits_pos hd
  rw [Decimal.toFloat, Float.ofScientific]
  split
  · -- Digits and power are doubles themselves, so only their product or quotient is rounded.
    rename_i hsmall
    obtain ⟨m₁, q₁, hd₁, hfull₁, hvalue₁, hfloat₁⟩ := exists_isDouble_word hdigits hsmall.1
    have hpower : d.exponent.natAbs < Float.exactlyRepresentablePowersOfTen.size :=
      Nat.lt_succ_of_le hsmall.2
    obtain ⟨m₂, q₂, hd₂, hvalue₂, hfloat₂⟩ := exists_isDouble_power _ hpower
    by_cases hneg : d.exponent < 0
    · have hvalue : d.value = m₁ * 2 ^ q₁ / (m₂ * 2 ^ q₂) := by
        have habs : (-d.exponent).toNat = d.exponent.natAbs := by omega
        rw [hvalue₁, hvalue₂, value, ten_zpow_of_nonpos hneg.le, habs, mul_one_div]
      rw [hvalue] at h
      rw [if_pos (decide_eq_true hneg)]
      change _ / Float.exactlyRepresentablePowersOfTen[d.exponent.natAbs] = _
      rw [hfloat₁, hfloat₂, div_ofModel hd₁ hd₂, h.div hd]
    · have hvalue : d.value = m₁ * 2 ^ q₁ * (m₂ * 2 ^ q₂) := by
        have habs : d.exponent.toNat = d.exponent.natAbs := by omega
        rw [hvalue₁, hvalue₂, value, ten_zpow_of_nonneg (by omega), habs]
      rw [hvalue] at h
      rw [if_neg (by simpa using hneg)]
      change _ * Float.exactlyRepresentablePowersOfTen[d.exponent.natAbs] = _
      have hbits : 2 ^ 52 ≤ m₁ * m₂ := hfull₁.trans (Nat.le_mul_of_pos_right _ hd₂.pos)
      rw [hfloat₁, hfloat₂, mul_ofModel hd₁ hd₂, h.mul hd]
      exact (Nat.le_log2 (by omega)).2 hbits
  · have hexponent : (if decide (d.exponent < 0) = true then Int.negOfNat d.exponent.natAbs
        else Int.ofNat d.exponent.natAbs) = d.exponent := by
      by_cases hneg : d.exponent < 0
      · rw [if_pos (decide_eq_true hneg), Int.negOfNat_eq]
        change -(d.exponent.natAbs : Int) = d.exponent
        omega
      · rw [if_neg (by simpa using hneg)]
        change (d.exponent.natAbs : Int) = d.exponent
        omega
    simp only [hexponent]
    change Float.ofModel (.pack (UnpackedFloat.ofScientific .binary64 d.digits d.exponent)) = _
    rw [Nearest.ofScientific h hd]

end Dice
