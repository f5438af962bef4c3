import Dice.Proofs.Float.Packing

/-!
# Rounding a significand

A significand with its round and sticky bits stands for a rational as far as rounding sees it. A
shift to the right keeps what it stands for, and it is rounded as the rational is: to the nearest
natural number, or the even one of the two.
-/

namespace Dice

open Float.Model Float.Model.UnpackedFloat

/-! ### Powers of two -/

theorem two_zpow_pos (e : Int) :
  (0 : ℚ) < 2 ^ e
  := zpow_pos two_pos e

/-- A power of two, in units of another. -/
theorem two_zpow_add (n : Nat) (e : Int) :
  (2 : ℚ) ^ (n + e) = 2 ^ n * 2 ^ e
  := by
  rw [zpow_add₀ two_ne_zero, zpow_natCast]

theorem lt_of_two_zpow_lt {a b : Int} (h : (2 : ℚ) ^ a < 2 ^ b) :
  a < b
  := (zpow_lt_zpow_iff_right₀ one_lt_two).1 h

/-! ### Accuracy -/

/-- A number lies above a significand, in units of its last place, as an accuracy says. -/
def Within (m : Nat) (y : ℚ) : Accuracy → Prop
  | .exact => y = m
  | .inexact .lt => m < y ∧ 2 * y < 2 * m + 1
  | .inexact .eq => 2 * y = 2 * m + 1
  | .inexact .gt => 2 * m + 1 < 2 * y ∧ y < m + 1

theorem Within.le {m : Nat} {y : ℚ} {acc : Accuracy} (h : Within m y acc) :
  (m : ℚ) ≤ y ∧ y < m + 1
  := by
  unfold Within at h
  split at h
  · constructor <;> linarith
  · constructor <;> linarith
  · constructor <;> linarith
  · constructor <;> linarith

/-- A number is rounded to a natural number: the nearest one, or the even one of the two. -/
structure RoundsTo (y : ℚ) (m : Nat) : Prop where
  low : 2 * (m : ℚ) ≤ 2 * y + 1
  high : 2 * y ≤ 2 * m + 1
  odd : m % 2 = 1 → 2 * (m : ℚ) < 2 * y + 1 ∧ 2 * y < 2 * m + 1

/-- The significand is rounded as the number that it stands for. -/
theorem Within.roundToNearestEven
    {m n : Nat} {y : ℚ} {acc : Accuracy} (h : Within m y acc) (hn : RoundsTo y n) :
  acc.roundToNearestEven m = n
  := by
  obtain ⟨hlow, hhigh, hodd⟩ := hn
  unfold Within at h
  split at h
  · subst h
    norm_cast at hlow hhigh
    change m = n
    omega
  · have h₁ : 2 * (n : ℚ) < 2 * m + 2 := by linarith
    have h₂ : 2 * (m : ℚ) < 2 * n + 1 := by linarith
    norm_cast at h₁ h₂
    change m = n
    omega
  · -- The number lies halfway, so an odd one of the two is not the nearest.
    have h₁ : 2 * (n : ℚ) ≤ 2 * m + 2 := by linarith
    have h₂ : 2 * (m : ℚ) + 1 ≤ 2 * n + 1 := by linarith
    have heven : n % 2 = 0 := by
      by_contra hne
      obtain ⟨hlow', hhigh'⟩ := hodd (by omega)
      have h₃ : 2 * (n : ℚ) < 2 * m + 2 := by linarith
      have h₄ : 2 * (m : ℚ) + 1 < 2 * n + 1 := by linarith
      norm_cast at h₃ h₄
      omega
    norm_cast at h₁ h₂
    change m + m % 2 = n
    omega
  · have h₁ : 2 * (n : ℚ) < 2 * m + 3 := by linarith
    have h₂ : 2 * (m : ℚ) + 1 < 2 * n + 1 := by linarith
    norm_cast at h₁ h₂
    change m + 1 = n
    omega

/-! ### Shifting -/

/-- What a significand with its round and sticky bits stands for, in units of its last place: the
half it names, or something between that half and the next. -/
def Rests (em : ExtendedMantissa) (y : ℚ) : Prop :=
  if em.stickyBit then
    2 * (em.mantissa : ℚ) + em.roundBit.toNat < 2 * y
      ∧ 2 * y < 2 * (em.mantissa : ℚ) + em.roundBit.toNat + 1
  else 2 * y = 2 * (em.mantissa : ℚ) + em.roundBit.toNat

theorem Within.rests {m : Nat} {y : ℚ} {acc : Accuracy} (h : Within m y acc) :
  Rests (.ofMantissaAndAccuracy m acc) y
  := by
  rcases acc with _ | (_ | _ | _)
  · simp only [Within] at h
    simp [Rests, ExtendedMantissa.ofMantissaAndAccuracy, h]
  · simp only [Within] at h
    simp [Rests, ExtendedMantissa.ofMantissaAndAccuracy, h]
  · simp only [Within] at h
    simp [Rests, ExtendedMantissa.ofMantissaAndAccuracy, h]
  · simp only [Within] at h
    simp [Rests, ExtendedMantissa.ofMantissaAndAccuracy, h]
    linarith

theorem Rests.within {em : ExtendedMantissa} {y : ℚ} (h : Rests em y) :
  Within em.mantissa y em.accuracy
  := by
  obtain ⟨m, round, sticky⟩ := em
  cases round <;> cases sticky
  · simpa [Rests, Within, ExtendedMantissa.accuracy] using h
  · simpa [Rests, Within, ExtendedMantissa.accuracy] using h
  · simpa [Rests, Within, ExtendedMantissa.accuracy] using h
  · simp [Rests] at h
    simp only [Within, ExtendedMantissa.accuracy]
    constructor <;> linarith

/-- A shift by one place keeps what the significand stands for. -/
theorem Rests.shiftRightOne {em : ExtendedMantissa} {y : ℚ} (h : Rests em y) :
  Rests em.shiftRightOne (y / 2)
  := by
  have hbit : (em.mantissa % 2 != 0).toNat = em.mantissa % 2 := by
    rcases Nat.mod_two_eq_zero_or_one em.mantissa with hm | hm <;> rw [hm] <;> rfl
  have hm : 2 * ((em.mantissa / 2 : Nat) : ℚ) + (em.mantissa % 2 : Nat) = em.mantissa := by
    exact_mod_cast Nat.div_add_mod em.mantissa 2
  obtain ⟨m, round, sticky⟩ := em
  simp only [Rests, ExtendedMantissa.shiftRightOne, hbit, hm] at h ⊢
  cases round <;> cases sticky
  · simp at h ⊢
    linarith
  · simp at h ⊢
    constructor <;> linarith
  · simp at h ⊢
    constructor <;> linarith
  · simp at h ⊢
    constructor <;> linarith

/-- A shift keeps what the significand stands for. -/
theorem Rests.shiftRight {em : ExtendedMantissa} {y : ℚ} (h : Rests em y) (n : Nat) :
  Rests (em >>> n) (y / 2 ^ n)
  := by
  change Rests (Nat.repeat _ n em) _
  induction n with
  | zero =>
    rw [pow_zero, div_one]
    exact h
  | succ n ih =>
    rw [Nat.repeat, pow_succ, ← div_div]
    exact ih.shiftRightOne

/-- A shift to an exponent keeps what the significand stands for. -/
theorem shiftToExponent_rests
    {m : Nat} {e t : Int} {acc : Accuracy} {v : ℚ} (h : Within m (v / 2 ^ e) acc) (het : e ≤ t) :
  Rests (shiftToExponent m e acc t).1 (v / 2 ^ t) ∧ (shiftToExponent m e acc t).2 = t
  := by
  have hpower : (2 : ℚ) ^ t = 2 ^ e * 2 ^ (t - e).toNat := by
    rw [← zpow_natCast, ← zpow_add₀ two_ne_zero]
    congr 1
    omega
  constructor
  · rw [hpower, ← div_div]
    exact h.rests.shiftRight _
  · change e + ((t - e).toNat : Int) = t
    omega

/-- A significand is shifted, rounded, and shifted once more for the carry. -/
theorem roundWithAccuracy_eq
    {spec : Format} {m : Nat} {e e₁ e₂ : Int} {acc : Accuracy} {em₁ em₂ : ExtendedMantissa}
    (s : Sign) (h₁ : shiftToTargetExponent spec m e acc = (em₁, e₁))
    (h₂ : shiftToTargetExponent spec em₁.roundedMantissa e₁ .exact = (em₂, e₂))
    (hpos : 0 < em₂.mantissa) :
  roundWithAccuracy spec s m e acc = .finite s em₂.mantissa e₂ hpos
  := by
  rw [roundWithAccuracy, h₁]
  simp only [h₂]
  exact dif_neg (Nat.ne_of_gt hpos)

/-- What is at its exponent already is not shifted. -/
theorem shiftToTargetExponent_self
    {spec : Format} {m : Nat} {e : Int} (h : spec.targetExponent (totalExponent m e) = e) :
  shiftToTargetExponent spec m e .exact = (⟨m, false, false⟩, e)
  := by
  rw [shiftToTargetExponent, h, shiftToExponent, Int.sub_self]
  exact congrArg _ (Int.add_zero e)

end Dice
