import Dice.Decimal.Shortest
import Dice.Proofs.Decimal.Nearest

/-!
# The shortest decimal is nearest

A point of a grid that is found in the interval around a double is nearest to the double, and so is
the decimal that is equal to it. Hence the shortest decimal is converted back to the double.
-/

namespace Dice.Decimal

/-! ### Grids -/

/-- An integral power is a quotient of natural ones. -/
theorem zpow_mul_pow {b : ℚ} (hb : b ≠ 0) (k : Int) :
  b ^ k * b ^ (-k).toNat = b ^ k.toNat
  := by
  rw [← zpow_natCast, ← zpow_natCast, ← zpow_add₀ hb]
  congr 1
  omega

/-- The common measure is in the proportion of the powers. -/
theorem proportion_eq (k e : Int) :
  (10 : ℚ) ^ k / 2 ^ e * (proportion k e).2 = (proportion k e).1
  := by
  have htwo := zpow_mul_pow two_ne_zero e
  have hten := zpow_mul_pow (b := 10) (by norm_num) k
  have hpos := two_zpow_pos e
  simp only [proportion, Nat.pow_eq, Nat.cast_mul, Nat.cast_pow, Nat.cast_ofNat]
  rw [← htwo, ← hten]
  field_simp

theorem proportion_pos (k e : Int) :
  (0 : ℚ) < (proportion k e).2
  := by
  have hpos : 0 < (proportion k e).2 :=
    Nat.mul_pos (Nat.two_pow_pos _) (Nat.pow_pos (by decide))
  exact_mod_cast hpos

/-- A point of a grid, in units of a power of two. -/
theorem point_eq (c : Nat) (k e : Int) :
  (c : ℚ) * 10 ^ k / 2 ^ e * (proportion k e).2 = (c * (proportion k e).1 : Nat)
  := by
  rw [mul_div_assoc, mul_assoc, proportion_eq, Nat.cast_mul]

theorem le_point {a c : Nat} {k e : Int} :
  (a : ℚ) ≤ c * 10 ^ k / 2 ^ e ↔ a * (proportion k e).2 ≤ c * (proportion k e).1
  := by
  rw [← mul_le_mul_iff_of_pos_right (proportion_pos k e), point_eq]
  exact_mod_cast Iff.rfl

theorem point_le {a c : Nat} {k e : Int} :
  (c : ℚ) * 10 ^ k / 2 ^ e ≤ a ↔ c * (proportion k e).1 ≤ a * (proportion k e).2
  := by
  rw [← mul_le_mul_iff_of_pos_right (proportion_pos k e), point_eq]
  exact_mod_cast Iff.rfl

theorem lt_point {a c : Nat} {k e : Int} :
  (a : ℚ) < c * 10 ^ k / 2 ^ e ↔ a * (proportion k e).2 < c * (proportion k e).1
  := by
  rw [← not_le, ← not_le, point_le]

theorem point_lt {a c : Nat} {k e : Int} :
  (c : ℚ) * 10 ^ k / 2 ^ e < a ↔ c * (proportion k e).1 < a * (proportion k e).2
  := by
  rw [← not_le, ← not_le, le_point]

/-! ### Intervals -/

variable {m c : Nat} {q k : Int}

/-- What lies in the interval around a double, and within it where the significand is odd, is
nearest to the double. -/
theorem nearest_of_interval
    {v : ℚ} (hm : 0 < m) (hlow : (interval m q).1 ≤ v / 2 ^ (q - 2))
    (hhigh : v / 2 ^ (q - 2) ≤ (interval m q).2)
    (hodd : m % 2 = 1 → (interval m q).1 < v / 2 ^ (q - 2) ∧ v / 2 ^ (q - 2) < (interval m q).2) :
  Nearest v m q
  := by
  have hunit : v / 2 ^ (q - 2) = 4 * (v / 2 ^ q) := by
    rw [zpow_sub₀ two_ne_zero]
    norm_num
    ring
  have hupper : (((interval m q).2 : Nat) : ℚ) = 4 * m + 2 := by
    simp [interval]
  have hlower : 4 * (m : ℚ) ≤ (interval m q).1 + 2 := by
    have h : 4 * m ≤ (interval m q).1 + 2 := by
      simp only [interval]
      split <;> omega
    exact_mod_cast h
  rw [hunit] at hlow hhigh hodd
  rw [hupper] at hhigh hodd
  constructor
  · constructor
    · linarith
    · linarith
    · intro h
      obtain ⟨hlow', hhigh'⟩ := hodd h
      constructor <;> linarith
  · rintro rfl hq
    have hbelow : (interval (2 ^ 52) q).1 = 2 ^ 54 - 1 := if_pos ⟨rfl, hq⟩
    rw [hbelow] at hlow
    norm_num at hlow ⊢
    linarith

/-- A point of a grid in the interval around a double, not at its ends where the significand is
odd. -/
def Inside (m : Nat) (q k : Int) (c : Nat) : Prop :=
  if m % 2 = 0 then
    (interval m q).1 * (proportion k (q - 2)).2 ≤ c * (proportion k (q - 2)).1
      ∧ c * (proportion k (q - 2)).1 ≤ (interval m q).2 * (proportion k (q - 2)).2
  else
    (interval m q).1 * (proportion k (q - 2)).2 < c * (proportion k (q - 2)).1
      ∧ c * (proportion k (q - 2)).1 < (interval m q).2 * (proportion k (q - 2)).2

theorem of_ite_decide
    {p a b : Prop} [Decidable p] [Decidable a] [Decidable b]
    (h : (if p then decide a else decide b) = true) :
  if p then a else b
  := by
  split at h
  · rename_i hp
    rw [if_pos hp]
    exact of_decide_eq_true h
  · rename_i hp
    rw [if_neg hp]
    exact of_decide_eq_true h

/-- The point that is taken is inside the interval. -/
theorem inside_of_onGrid? (h : onGrid? m q k = some c) :
  Inside m q k c
  := by
  simp only [onGrid?] at h
  split at h
  · cases h
  · rename_i hbelow _
    cases h
    exact of_ite_decide hbelow
  · rename_i _ habove
    cases h
    exact of_ite_decide habove
  · rename_i hbelow habove
    obtain rfl := Option.some.inj h
    split
    · exact of_ite_decide hbelow
    · exact of_ite_decide habove

/-- A point that is taken for a double is nearest to it. -/
theorem nearest_of_onGrid? (hm : 0 < m) (h : onGrid? m q k = some c) :
  Nearest (c * 10 ^ k) m q
  := by
  have hinside := inside_of_onGrid? h
  rw [Inside] at hinside
  split at hinside
  · rename_i heven
    obtain ⟨hlow, hhigh⟩ := hinside
    exact nearest_of_interval hm (le_point.2 hlow) (point_le.2 hhigh) (by omega)
  · obtain ⟨hlow, hhigh⟩ := hinside
    have hlow' := lt_point.2 hlow
    have hhigh' := point_lt.2 hhigh
    exact nearest_of_interval hm hlow'.le hhigh'.le (fun _ => ⟨hlow', hhigh'⟩)

/-! ### The shortest decimal -/

/-- The decimal equal to a double. -/
theorem value_exact (m : Nat) (q : Int) :
  (exact m q).value = m * 2 ^ q
  := by
  cases q with
  | ofNat k =>
    simp [exact, value]
  | negSucc k =>
    simp only [exact, value, zpow_negSucc, Nat.pow_eq]
    have hten : (10 : ℚ) ^ (k + 1) = 5 ^ (k + 1) * 2 ^ (k + 1) := by
      rw [← mul_pow]
      norm_num
    rw [hten]
    push_cast
    field_simp

/-- The search ends with a decimal that is nearest to the double. -/
theorem nearest_shortestFrom (hd : IsDouble m q) (n : Nat) (k : Int) :
  Nearest (shortestFrom m q n k).value m q
  := by
  induction n generalizing k with
  | zero =>
    rw [shortestFrom, value_exact]
    exact hd.nearest
  | succ n ih =>
    rw [shortestFrom]
    split
    · rename_i c hc
      exact nearest_of_onGrid? hd.pos hc
    · apply ih

/-- The shortest decimal is nearest to the double. -/
theorem nearest_shortest (hd : IsDouble m q) :
  Nearest (shortest m q).value m q
  := by
  apply nearest_shortestFrom hd

end Dice.Decimal
