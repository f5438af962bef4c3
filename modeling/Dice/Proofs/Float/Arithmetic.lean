import Dice.Proofs.Float.Nearest

/-!
# Nearest products and quotients

The product and the quotient of two significands with their exponents, and the double of a natural
number, are nearest to what they stand for.
-/

namespace Dice

open Float.Model Float.Model.UnpackedFloat

/-! ### Exact significands -/

theorem within_exact {n : Nat} {e : Int} {v : ℚ} (h : v = n * 2 ^ e) :
  Within n (v / 2 ^ e) .exact
  := by
  change v / 2 ^ e = n
  rw [h, mul_div_cancel_right₀ _ (two_zpow_pos e).ne']

/-- A double is nearest to itself. -/
theorem IsDouble.nearest {m : Nat} {q : Int} (hd : IsDouble m q) :
  Nearest (m * 2 ^ q) m q
  := by
  have hself : (m : ℚ) * 2 ^ q / 2 ^ q = m := mul_div_cancel_right₀ _ (two_zpow_pos q).ne'
  constructor
  · rw [hself]
    constructor
    · linarith
    · linarith
    · intro hodd
      constructor <;> linarith
  · rintro rfl hq
    rw [hself]
    norm_num

/-- A natural number of fifty-three bits at most, scaled by a power of two, is a double. -/
theorem IsDouble.exists_of_small
    {n : Nat} (hn : 0 < n) (hsmall : n < 2 ^ 53) {e : Int} (hmin : -1022 ≤ e) (hmax : e ≤ 971) :
  ∃ m q, IsDouble m q ∧ 2 ^ 52 ≤ m ∧ (m : ℚ) * 2 ^ q = n * 2 ^ e
  := by
  have hn' := Nat.ne_of_gt hn
  have hlog : n.log2 < 53 := (Nat.log2_lt hn').2 hsmall
  obtain ⟨hlow, hhigh⟩ := (Nat.log2_eq_iff hn').1 rfl
  have hlow' : 2 ^ 52 ≤ n * 2 ^ (52 - n.log2) := by
    calc 2 ^ 52 = 2 ^ n.log2 * 2 ^ (52 - n.log2) := by
          rw [← Nat.pow_add]
          congr 1
          omega
      _ ≤ n * 2 ^ (52 - n.log2) := Nat.mul_le_mul_right _ hlow
  have hhigh' : n * 2 ^ (52 - n.log2) < 2 ^ 53 := by
    calc n * 2 ^ (52 - n.log2) < 2 ^ (n.log2 + 1) * 2 ^ (52 - n.log2) :=
          Nat.mul_lt_mul_of_pos_right hhigh (Nat.two_pow_pos _)
      _ = 2 ^ 53 := by
          rw [← Nat.pow_add]
          congr 1
          omega
  refine ⟨n * 2 ^ (52 - n.log2), e - (52 - n.log2 : Nat), ?_, hlow', ?_⟩
  · exact ⟨by omega, hhigh', by omega, by omega, .inl hlow'⟩
  · rw [Nat.cast_mul, Nat.cast_pow, Nat.cast_ofNat, mul_assoc, ← two_zpow_add]
    congr 2
    omega

/-! ### Quotients -/

/-- The remainder of a division tells where the quotient lies. -/
theorem within_div (a : Nat) {b : Nat} (hb : 0 < b) :
  Within (a / b) ((a : ℚ) / b) (accuracyOfFraction (a % b) b)
  := by
  have hb' : (0 : ℚ) < b := by exact_mod_cast hb
  have hlt : ((a % b : Nat) : ℚ) < b := by exact_mod_cast Nat.mod_lt a hb
  have ha : (a : ℚ) = b * (a / b : Nat) + (a % b : Nat) := by
    exact_mod_cast (Nat.div_add_mod a b).symm
  have hy : (a : ℚ) / b = (a / b : Nat) + (a % b : Nat) / b := by
    rw [div_eq_iff hb'.ne', add_mul, div_mul_cancel₀ _ hb'.ne', mul_comm]
    exact ha
  generalize a / b = n at hy ⊢
  generalize a % b = r at hy hlt ⊢
  rw [hy, accuracyOfFraction]
  split
  · rename_i hr
    rw [hr]
    change (n : ℚ) + (0 : Nat) / b = n
    rw [Nat.cast_zero, zero_div, add_zero]
  · rename_i hr
    have hr' : (0 : ℚ) < r := by exact_mod_cast Nat.pos_of_ne_zero hr
    have hpos : (0 : ℚ) < r / b := div_pos hr' hb'
    have hone : (r : ℚ) / b < 1 := (div_lt_one hb').2 hlt
    cases hcompare : compare (2 * r) b with
    | lt =>
      have h₁ : 2 * (r : ℚ) < b := by exact_mod_cast Nat.compare_eq_lt.1 hcompare
      have h₂ : 2 * ((r : ℚ) / b) < 1 := by
        rw [← mul_div_assoc, div_lt_one hb']
        exact h₁
      change _ ∧ _
      constructor <;> linarith
    | eq =>
      have h₁ : 2 * (r : ℚ) = b := by exact_mod_cast Nat.compare_eq_eq.1 hcompare
      have h₂ : 2 * ((r : ℚ) / b) = 1 := by
        rw [← mul_div_assoc, div_eq_one_iff_eq hb'.ne']
        exact h₁
      change _ = _
      linarith
    | gt =>
      have h₁ : (b : ℚ) < 2 * r := by exact_mod_cast Nat.compare_eq_gt.1 hcompare
      have h₂ : 1 < 2 * ((r : ℚ) / b) := by
        rw [← mul_div_assoc, one_lt_div hb']
        exact h₁
      change _ ∧ _
      constructor <;> linarith

/-- A quotient has fifty-three bits where the dividend has as many more than the divisor. -/
theorem le_log2_div {a b : Nat} (ha : 0 < a) (hb : 0 < b) (h : b.log2 + 53 ≤ a.log2) :
  52 ≤ (a / b).log2
  := by
  obtain ⟨hlow, -⟩ := (Nat.log2_eq_iff (Nat.ne_of_gt ha)).1 rfl
  obtain ⟨-, hhigh⟩ := (Nat.log2_eq_iff (Nat.ne_of_gt hb)).1 rfl
  have hdiv : 2 ^ 52 ≤ a / b := by
    rw [Nat.le_div_iff_mul_le hb]
    calc 2 ^ 52 * b ≤ 2 ^ 52 * 2 ^ (b.log2 + 1) := Nat.mul_le_mul_left _ hhigh.le
      _ = 2 ^ (b.log2 + 53) := by
          rw [← Nat.pow_add]
          congr 1
          omega
      _ ≤ 2 ^ a.log2 := Nat.pow_le_pow_right two_pos h
      _ ≤ a := hlow
  exact (Nat.le_log2 (by omega)).2 hdiv

theorem log2_shiftLeft {n : Nat} (hn : 0 < n) (k : Nat) :
  (n <<< k).log2 = n.log2 + k
  := by
  induction k with
  | zero => rfl
  | succ k ih =>
    have hpos : n <<< k ≠ 0 := by
      rw [Nat.shiftLeft_eq]
      exact Nat.mul_ne_zero (Nat.ne_of_gt hn) (Nat.ne_of_gt (Nat.two_pow_pos k))
    rw [Nat.shiftLeft_succ, Nat.log2_two_mul hpos, ih, Nat.add_assoc]

theorem le_targetExponent {n : Nat} {e : Int} (h : e ≤ -1074 ∨ 52 ≤ n.log2) :
  e ≤ Format.binary64.targetExponent (totalExponent n e)
  := by
  rw [targetExponent_eq]
  omega

namespace Nearest

variable {m : Nat} {q : Int}

/-- The product that is rounded. -/
theorem mul
    {m₁ m₂ : Nat} {e₁ e₂ : Int} (h : Nearest (m₁ * 2 ^ e₁ * (m₂ * 2 ^ e₂)) m q)
    (hd : IsDouble m q) (h₁ : 0 < m₁) (h₂ : 0 < m₂) (hlog : 52 ≤ (m₁ * m₂).log2) :
  UnpackedFloat.mul .binary64 (.finite .positive m₁ e₁ h₁) (.finite .positive m₂ e₂ h₂)
    = .finite .positive m q hd.pos
  := by
  apply h.roundWithAccuracy hd _ _ (le_targetExponent (.inr hlog))
  apply within_exact
  rw [Nat.cast_mul, zpow_add₀ two_ne_zero]
  ring

/-- The quotient that is rounded. -/
theorem div
    {m₁ m₂ : Nat} {e₁ e₂ : Int} (h : Nearest (m₁ * 2 ^ e₁ / (m₂ * 2 ^ e₂)) m q)
    (hd : IsDouble m q) (h₁ : 0 < m₁) (h₂ : 0 < m₂) :
  UnpackedFloat.div .binary64 (.finite .positive m₁ e₁ h₁) (.finite .positive m₂ e₂ h₂)
    = .finite .positive m q hd.pos
  := by
  have htarget : Format.binary64.targetExponent (totalExponent m₁ e₁ - totalExponent m₂ e₂)
      = max (m₁.log2 + e₁ - (m₂.log2 + e₂) - 53) (-1074) := by
    change max ((m₁.log2 + 1 + e₁ : Int) - (m₂.log2 + 1 + e₂) - (53 : Nat)) (-1074) = _
    omega
  rw [UnpackedFloat.div, divCore, htarget]
  generalize ht : min (e₁ - e₂) (max (m₁.log2 + e₁ - (m₂.log2 + e₂) - 53) (-1074)) = t
  have hshift : 0 < m₁ <<< (e₁ - e₂ - t).toNat := by
    rw [Nat.shiftLeft_eq]
    exact Nat.mul_pos h₁ (Nat.two_pow_pos _)
  apply h.roundWithAccuracy hd
  · have hvalue : (m₁ : ℚ) * 2 ^ e₁ / (m₂ * 2 ^ e₂) / 2 ^ t
        = (m₁ <<< (e₁ - e₂ - t).toNat : Nat) / m₂ := by
      have hm₂ : (m₂ : ℚ) ≠ 0 := by exact_mod_cast h₂.ne'
      have hpower : (2 : ℚ) ^ e₁ = 2 ^ (e₁ - e₂ - t).toNat * (2 ^ e₂ * 2 ^ t) := by
        rw [← zpow_add₀ two_ne_zero, ← two_zpow_add]
        congr 1
        omega
      rw [Nat.shiftLeft_eq, Nat.cast_mul, Nat.cast_pow, Nat.cast_ofNat, div_div, hpower,
        div_eq_div_iff (by positivity) hm₂]
      ring
    rw [hvalue]
    exact within_div _ h₂
  · apply le_targetExponent
    rcases le_or_gt t (-1074) with hmin | hmin
    · exact .inl hmin
    · right
      apply le_log2_div hshift h₂
      rw [log2_shiftLeft h₁]
      omega

/-- A significand is rounded wherever it is shifted to. -/
theorem round {n : Nat} {e : Int} (h : Nearest (n * 2 ^ e) m q) (hd : IsDouble m q) (s : Sign)
    (hn : 0 < n) :
  UnpackedFloat.round .binary64 s n e = .finite s m q hd.pos
  := by
  rw [UnpackedFloat.round, targetExponent_eq, decreaseExponent]
  apply h.roundWithAccuracy hd
  · apply within_exact
    rw [Nat.shiftLeft_eq, Nat.cast_mul, Nat.cast_pow, Nat.cast_ofNat, mul_assoc, ← two_zpow_add]
    congr 2
    omega
  · rw [targetExponent_eq, log2_shiftLeft hn]
    omega

/-- The double of a natural number. -/
theorem ofNat {n : Nat} (h : Nearest n m q) (hd : IsDouble m q) (hn : 0 < n) :
  UnpackedFloat.ofNat .binary64 n = .finite .positive m q hd.pos
  := by
  have hcompare : compare (n : Int) 0 = .gt := by
    rw [Int.compare_eq_gt]
    omega
  have h' : Nearest (n * 2 ^ (0 : Int)) m q := by
    rw [zpow_zero, mul_one]
    exact h
  rw [UnpackedFloat.ofNat, UnpackedFloat.ofInt, UnpackedFloat.normalize, hcompare]
  exact h'.round hd .positive hn

/-- The double of a word. -/
theorem toFloat {n : Nat} (h : Nearest n m q) (hd : IsDouble m q) (hn : 0 < n)
    (hword : n < 2 ^ 64) :
  n.toUInt64.toFloat = .ofModel (.pack (.finite .positive m q hd.pos))
  := by
  have htoNat : n.toUInt64.toNat = n := UInt64.toNat_ofNat_of_lt' hword
  rw [← h.ofNat hd hn]
  change Float.ofModel (.pack (UnpackedFloat.ofNat .binary64 n.toUInt64.toNat)) = _
  rw [htoNat]

end Nearest

/-! ### Packed doubles -/

section

variable {m₁ m₂ : Nat} {q₁ q₂ : Int} (h₁ : IsDouble m₁ q₁) (h₂ : IsDouble m₂ q₂) (s₁ s₂ : Sign)

/-- The opposite of a double. -/
theorem neg_ofModel :
  -Float.ofModel (.pack (.finite s₁ m₁ q₁ h₁.pos)) = .ofModel (.pack (.finite (-s₁) m₁ q₁ h₁.pos))
  := by
  change Float.ofModel (.pack (UnpackedFloat.neg
    (UnpackedFloat.unpack .binary64 (UnpackedFloat.pack .binary64 (.finite s₁ m₁ q₁ h₁.pos))))) = _
  rw [h₁.unpack_pack]
  rfl

/-- The product of two doubles. -/
theorem mul_ofModel :
  Float.ofModel (.pack (.finite s₁ m₁ q₁ h₁.pos)) * .ofModel (.pack (.finite s₂ m₂ q₂ h₂.pos))
    = .ofModel (.pack (UnpackedFloat.mul .binary64
        (.finite s₁ m₁ q₁ h₁.pos) (.finite s₂ m₂ q₂ h₂.pos)))
  := by
  change Float.ofModel (.pack (UnpackedFloat.mul .binary64
    (UnpackedFloat.unpack .binary64 (UnpackedFloat.pack .binary64 (.finite s₁ m₁ q₁ h₁.pos)))
    (UnpackedFloat.unpack .binary64 (UnpackedFloat.pack .binary64 (.finite s₂ m₂ q₂ h₂.pos))))) = _
  rw [h₁.unpack_pack, h₂.unpack_pack]

/-- The quotient of two doubles. -/
theorem div_ofModel :
  Float.ofModel (.pack (.finite s₁ m₁ q₁ h₁.pos)) / .ofModel (.pack (.finite s₂ m₂ q₂ h₂.pos))
    = .ofModel (.pack (UnpackedFloat.div .binary64
        (.finite s₁ m₁ q₁ h₁.pos) (.finite s₂ m₂ q₂ h₂.pos)))
  := by
  change Float.ofModel (.pack (UnpackedFloat.div .binary64
    (UnpackedFloat.unpack .binary64 (UnpackedFloat.pack .binary64 (.finite s₁ m₁ q₁ h₁.pos)))
    (UnpackedFloat.unpack .binary64 (UnpackedFloat.pack .binary64 (.finite s₂ m₂ q₂ h₂.pos))))) = _
  rw [h₁.unpack_pack, h₂.unpack_pack]

end

end Dice
