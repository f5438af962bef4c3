import Dice.Decimal.Reading
import Dice.Proofs.Code.Numeral
import Dice.Proofs.Decimal.Nearest

/-!
# The text of a decimal

The positional text of a decimal is a numeral that denotes the same number, although it may denote
it by another decimal: zeros before the point are digits, and zeros at the end are left out.
-/

namespace Dice.Decimal

/-! ### Numerals -/

/-- A run of digits denotes the natural number that it is. -/
theorem ofNumeral?_digits {ds : List Char} (hne : ds ≠ []) (hds : ∀ c ∈ ds, c.isDigit) :
  ofNumeral? ds = some ⟨Nat.ofDigitChars 10 ds 0, 0⟩
  := by
  have hempty : ds.isEmpty = false := List.isEmpty_eq_false_iff.2 hne
  have hnone : ∀ c ∈ ([] : List Char).head?, c.isDigit = false := by
    intro c hc
    cases hc
  have htake := takeWhile_digits hds hnone
  have hdrop := dropWhile_digits hds hnone
  rw [List.append_nil] at htake hdrop
  simp only [ofNumeral?, htake, hdrop, hempty, Bool.false_eq_true, if_false]

/-- Digits around a point denote the digits without the point, shifted by those behind it. -/
theorem ofNumeral?_point
    {ds ps : List Char} (hne : ds ≠ []) (hds : ∀ c ∈ ds, c.isDigit) (hps : ∀ c ∈ ps, c.isDigit) :
  ofNumeral? (ds ++ '.' :: ps) = some ⟨Nat.ofDigitChars 10 (ds ++ ps) 0, -(ps.length : Int)⟩
  := by
  have hempty : ds.isEmpty = false := List.isEmpty_eq_false_iff.2 hne
  have hpoint : ∀ c ∈ ('.' :: ps).head?, c.isDigit = false := by
    intro c hc
    cases hc
    rfl
  have hall : ps.all Char.isDigit = true := List.all_eq_true.2 hps
  simp only [ofNumeral?, takeWhile_digits hds hpoint, dropWhile_digits hds hpoint, hempty, hall,
    Bool.false_and, Bool.not_false, Bool.and_true, if_true]

/-! ### Fractions -/

/-- A run of digits with the zeros at its end left out. -/
theorem exists_replicate (ds : List Char) :
  ∃ k, ds = (ds.reverse.dropWhile (· == '0')).reverse ++ List.replicate k '0'
  := by
  have hsplit := List.takeWhile_append_dropWhile (p := (· == '0')) (l := ds.reverse)
  have hzeros : ∀ c ∈ ds.reverse.takeWhile (· == '0'), c = '0' := by
    intro c hc
    exact beq_iff_eq.1 (List.all_eq_true.1 List.all_takeWhile c hc)
  refine ⟨(ds.reverse.takeWhile (· == '0')).length, ?_⟩
  rw [← List.reverse_replicate, ← List.reverse_append, ← List.eq_replicate_of_mem hzeros, hsplit,
    List.reverse_reverse]

/-- The digits of a fraction, with the zeros that are left out. -/
theorem fraction_spec {n places : Nat} (hn : n < 10 ^ places) (hplaces : 0 < places) :
  ∃ k, (fraction n places).length + k = places
    ∧ Nat.ofDigitChars 10 (fraction n places) 0 * 10 ^ k = n
  := by
  have hlength : (Nat.toDigits 10 n).length ≤ places :=
    (Nat.length_toDigits_le_iff (by decide) hplaces).2 hn
  obtain ⟨k, hk⟩ := exists_replicate
    (List.replicate (places - (Nat.toDigits 10 n).length) '0' ++ Nat.toDigits 10 n)
  change _ = fraction n places ++ _ at hk
  refine ⟨k, ?_, ?_⟩
  · have h := congrArg List.length hk
    rw [List.length_append, List.length_append, List.length_replicate, List.length_replicate] at h
    omega
  · have h := congrArg (Nat.ofDigitChars 10 · 0) hk
    simp only [Nat.ofDigitChars_append, Nat.ofDigitChars_replicate_zero, Nat.mul_zero,
      Nat.ofDigitChars_ten_toDigits] at h
    rw [Nat.mul_comm]
    exact h.symm

/-! ### The text -/

/-- The places behind the point make up the rest of a number. -/
theorem value_point {d : Decimal} {k f n j : Nat} (hk : d.exponent = .negSucc k)
    (hplaces : n + j = k + 1) (hf : f * 10 ^ j = d.digits % 10 ^ (k + 1)) :
  value ⟨10 ^ n * (d.digits / 10 ^ (k + 1)) + f, -(n : Int)⟩ = d.value
  := by
  have hdigits : d.digits = 10 ^ j * (10 ^ n * (d.digits / 10 ^ (k + 1)) + f) := by
    calc d.digits = 10 ^ (k + 1) * (d.digits / 10 ^ (k + 1)) + d.digits % 10 ^ (k + 1) :=
          (Nat.div_add_mod _ _).symm
      _ = 10 ^ (n + j) * (d.digits / 10 ^ (k + 1)) + f * 10 ^ j := by rw [hplaces, hf]
      _ = 10 ^ j * (10 ^ n * (d.digits / 10 ^ (k + 1)) + f) := by ring
  generalize 10 ^ n * (d.digits / 10 ^ (k + 1)) + f = w at hdigits ⊢
  rw [value, value, hk, hdigits, zpow_negSucc, ← hplaces, zpow_neg, zpow_natCast, pow_add]
  push_cast
  field_simp

/-- The text of a decimal denotes the same number. -/
theorem ofNumeral?_text (d : Decimal) :
  ∃ d', ofNumeral? d.text = some d' ∧ d'.value = d.value
  := by
  have hdigits : ∀ {n : Nat}, ∀ c ∈ Nat.toDigits 10 n, c.isDigit := by
    intro n c hc
    exact Nat.isDigit_of_mem_toDigits (by decide) (by decide) hc
  simp only [text, Nat.pow_eq]
  split
  · rename_i k hk
    refine ⟨_, ofNumeral?_digits Nat.toDigits_ne_nil hdigits, ?_⟩
    simp [value, hk]
  · rename_i k hk
    have hlt := Nat.mod_lt d.digits (Nat.pow_pos (n := k + 1) (show 0 < 10 by decide))
    obtain ⟨j, hplaces, hf⟩ := fraction_spec hlt (Nat.succ_pos k)
    split
    · rename_i hnil
      rw [hnil] at hplaces hf
      refine ⟨_, ofNumeral?_digits Nat.toDigits_ne_nil hdigits, ?_⟩
      rw [Nat.ofDigitChars_ten_toDigits, ← value_point hk hplaces hf]
      simp [value]
    · rename_i ds hne
      have hps : ∀ c ∈ fraction (d.digits % 10 ^ (k + 1)) (k + 1), c.isDigit := by
        intro c hc
        exact isDigit_of_mem_fraction hc
      refine ⟨_, ofNumeral?_point Nat.toDigits_ne_nil hdigits hps, ?_⟩
      rw [Nat.ofDigitChars_append, Nat.ofDigitChars_eq_ofDigitChars_zero,
        Nat.ofDigitChars_ten_toDigits]
      exact value_point hk hplaces hf

end Dice.Decimal
