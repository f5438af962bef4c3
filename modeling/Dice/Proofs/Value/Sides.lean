import Dice.Proofs.Number.Order
import Dice.Proofs.Value.Consistent

/-!
# Outcomes and counts of sides

A die that is put down on a count of sides is accepted for an integer outcome between one and the
count. Where the outcome is a double, the count is compared as a double too: it is accepted also for
the double that the count is rounded up to, which is greater than the count.
-/

namespace Dice

open Float.Model Float.Model.UnpackedFloat

/-! ### Exact values -/

/-- The rational that a binary fraction is. -/
def Binary.rational (b : Binary) : ℚ :=
  (if b.negative then -1 else 1) * (b.significand * 2 ^ b.exponent)

/-- A finite double is its exact value. -/
theorem Float.rational_of_ofFloat? {x : Float} {b : Binary} (h : Binary.ofFloat? x = some b) :
  rational x = b.rational
  := by
  rw [rational, Binary.rational]
  by_cases hzero : b.significand = 0
  · rw [Binary.eq_zero h hzero, unpack_zero, hzero, Nat.cast_zero, zero_mul, mul_zero]
    rfl
  · obtain ⟨hd, hpack⟩ := Binary.exists_isDouble h hzero
    rw [hpack, hd.unpack_ofModel]
    cases b.negative with
    | false => exact (one_mul _).symm
    | true => exact (neg_one_mul _).symm

/-- A significand over a power of two is an integer where the power divides it. -/
theorem exists_int_iff (m : Nat) (k : Nat) :
  (∃ i : ℤ, (m : ℚ) * 2 ^ (-k : ℤ) = i) ↔ m % 2 ^ k = 0
  := by
  have hpos : (0 : ℚ) < 2 ^ k := by positivity
  rw [zpow_neg, zpow_natCast, ← Nat.dvd_iff_mod_eq_zero]
  constructor
  · rintro ⟨i, hi⟩
    rw [mul_inv_eq_iff_eq_mul₀ hpos.ne'] at hi
    have hi' : (m : ℤ) = i * 2 ^ k := by exact_mod_cast hi
    exact_mod_cast Dvd.intro_left i hi'.symm
  · rintro ⟨i, rfl⟩
    refine ⟨i, ?_⟩
    rw [mul_inv_eq_iff_eq_mul₀ hpos.ne']
    push_cast
    ring

/-- Whether a binary fraction is an integer. -/
theorem Binary.isIntegral_iff (b : Binary) :
  b.isIntegral ↔ ∃ i : ℤ, b.rational = i
  := by
  have hsign : (∃ i : ℤ, b.rational = i) ↔ ∃ i : ℤ, (b.significand : ℚ) * 2 ^ b.exponent = i := by
    rw [Binary.rational]
    cases b.negative with
    | false => simp only [Bool.false_eq_true, if_false, one_mul]
    | true =>
      simp only [if_true, neg_one_mul]
      constructor
      · rintro ⟨i, hi⟩
        exact ⟨-i, by rw [Int.cast_neg, ← hi, neg_neg]⟩
      · rintro ⟨i, hi⟩
        exact ⟨-i, by rw [Int.cast_neg, hi]⟩
  rw [hsign, isIntegral]
  cases b.exponent with
  | ofNat k =>
    refine iff_of_true rfl ⟨b.significand * 2 ^ k, ?_⟩
    push_cast
    rfl
  | negSucc k => exact beq_iff_eq.trans (exists_int_iff b.significand (k + 1)).symm

namespace Number

/-- The number is exactly an integer. -/
def Exactly (x : Number) (i : ℤ) : Prop :=
  match x with
  | int n => n.toInt = i
  | float x => x.isFinite ∧ Float.rational x = i

/-- The integral numbers are those that are exactly some integer. -/
theorem isIntegral_iff (x : Number) :
  x.isIntegral ↔ ∃ i, x.Exactly i
  := by
  cases x with
  | int n => exact iff_of_true rfl ⟨n.toInt, rfl⟩
  | float x =>
    have hsome := Binary.isSome_ofFloat? x
    cases hb : Binary.ofFloat? x with
    | none =>
      rw [hb] at hsome
      simp [isIntegral, Exactly, hb, ← hsome]
    | some b =>
      rw [hb] at hsome
      simp [isIntegral, Exactly, hb, ← hsome, b.isIntegral_iff, Float.rational_of_ofFloat? hb]

theorem Exactly.isNaN {x : Number} {i : ℤ} (h : x.Exactly i) :
  x.isNaN = false
  := by
  cases x with
  | int n => rfl
  | float x => exact Float.isNaN_of_isFinite h.1

/-! ### Integers that are doubles -/

/-- A finite double above zero is a significand and an exponent. -/
theorem exists_isDouble_of_pos {x : Float} (hfinite : x.isFinite) (hpos : 0 < Float.rational x) :
  ∃ m q, ∃ hd : IsDouble m q, x.toModel.unpack = .finite .positive m q hd.pos
  := by
  have hunpacked := isUnpacked_unpack x
  rw [Float.rational] at hpos
  change x.toModel.unpack.isFinite = true at hfinite
  cases hx : x.toModel.unpack with
  | notANumber =>
    rw [hx] at hfinite
    cases hfinite
  | infinity s =>
    rw [hx] at hfinite
    cases hfinite
  | zero s =>
    rw [hx] at hpos
    exact absurd hpos (lt_irrefl 0)
  | finite s m q hm =>
    rw [hx] at hunpacked hpos
    cases s with
    | positive => exact ⟨m, q, hunpacked, rfl⟩
    | negative => exact absurd hpos (rational_negative hunpacked).2.not_gt

/-- An integer that is a double is on its own level. -/
theorem level_of_isDouble {n : Int64} {m : Nat} {q : Int} (hd : IsDouble m q)
    (h : (n.toInt : ℚ) = m * 2 ^ q) :
  (int n).level = n.toInt
  := by
  have hmax := n.toInt_lt
  have hpos : 0 < n.toInt := by
    have hpos' := hd.rational_pos
    rw [← h] at hpos'
    exact_mod_cast hpos'
  have hneg : ¬ n < 0 := by
    rw [Int64.lt_iff_toInt_lt]
    exact hpos.not_gt
  obtain ⟨k, hk⟩ : ∃ k : Nat, n.toInt = k := ⟨n.toInt.natAbs, by omega⟩
  have hnearest : Nearest k m q := by
    rw [hk, Int.cast_natCast] at h
    rw [h]
    exact hd.nearest
  rw [level, toFloat, floatOfInt, if_neg hneg, hk, Int.natAbs_natCast,
    hnearest.toFloat hd (by omega) (by omega), Float.rational, hd.unpack_ofModel, ← hk, h]
  rfl

theorem level_one :
  (int 1).level = 1
  := by
  obtain ⟨m, q, hd, -, hvalue⟩ := IsDouble.exists_of_small (n := 1) (e := 0) one_pos (by decide)
    (by decide) (by decide)
  have hone : (((1 : Int64).toInt : ℤ) : ℚ) = 1 := by
    rw [Int64.toInt_one, Int.cast_one]
  rw [level_of_isDouble hd, hone]
  rw [hone, hvalue, Nat.cast_one, zpow_zero, mul_one]

/-- A positive integer that is a double is at most on the level of another integer exactly where it
is not greater, or is itself the double that the other is rounded to. -/
theorem le_level_iff {x : Float} {i : ℤ} (h : (float x).Exactly i) (hpos : 1 ≤ i) (n : Int64) :
  (i : ℚ) ≤ (int n).level ↔ i ≤ n.toInt ∨ i = (int n).level
  := by
  obtain ⟨hfinite, hi⟩ := h
  have hi' : 0 < Float.rational x := by
    rw [hi]
    exact_mod_cast hpos
  obtain ⟨m, q, hd, hunpack⟩ := exists_isDouble_of_pos hfinite hi'
  have hvalue : (i : ℚ) = m * 2 ^ q := by
    rw [← hi, Float.rational, hunpack]
    rfl
  obtain ⟨k, rfl⟩ : ∃ k : Nat, i = k := ⟨i.natAbs, by omega⟩
  have hrounded : Rounded k (.finite .positive m q hd.pos) := by
    apply Rounded.positive (by omega) _ hd
    rw [Int.cast_natCast] at hvalue
    rw [hvalue]
    exact hd.nearest
  constructor
  · intro hle
    rcases le_or_gt (k : ℤ) n.toInt with hkn | hnk
    · exact .inl hkn
    · right
      have hge := (rounded_floatOfInt n).mono hrounded hnk
      exact le_antisymm hle (hge.trans_eq hvalue.symm)
  · rintro (hkn | heq)
    · rcases hkn.lt_or_eq with hlt | heq
      · exact hvalue.trans_le (hrounded.mono (rounded_floatOfInt n) hlt)
      · rw [heq] at hvalue ⊢
        exact (level_of_isDouble hd hvalue).ge
    · exact heq.le

end Number

/-! ### Outcomes -/

namespace Faces

open Number

/-- The outcomes of a die on a count of sides: the integers from one to the count, and the double
that the count is rounded to. -/
def Shows (x : Number) (n : Nat) : Prop :=
  ∃ i : ℤ, x.Exactly i ∧ 1 ≤ i ∧ (i ≤ n ∨ x.isFloat ∧ i = (int (.ofNat n)).level)

theorem one_le_iff {x : Number} {i : ℤ} (h : x.Exactly i) :
  ((int 1).compare? x).any (·.isLE) ↔ 1 ≤ i
  := by
  cases x with
  | int k =>
    obtain rfl : k.toInt = i := h
    exact Int.isLE_compare
  | float x =>
    have hcompare : (int 1).compare? (float x) = some (compare (int 1).level (float x).level) :=
      compareFloat?_eq (rounded_floatOfInt 1).isNaN h.isNaN
    have hlevel : (float x).level = i := h.2
    rw [hcompare, Option.any_some, Ordering.isLE_iff_ne_gt, compare_gt_iff_gt, not_lt, level_one,
      hlevel]
    exact_mod_cast Iff.rfl

theorem le_count_iff {x : Number} {i : ℤ} (h : x.Exactly i) (hpos : 1 ≤ i) {n : Nat}
    (hn : n ≤ Int64.maxValue.toInt) :
  (x.compare? (int (.ofNat n))).any (·.isLE)
    ↔ i ≤ n ∨ x.isFloat ∧ i = (int (.ofNat n)).level
  := by
  have htoInt : (Int64.ofNat n).toInt = n := toInt_ofNat hn
  cases x with
  | int k =>
    obtain rfl : k.toInt = i := h
    change (compare k.toInt (Int64.ofNat n).toInt).isLE ↔ _
    rw [Int.isLE_compare, htoInt]
    simp [isFloat]
  | float x =>
    have hcompare : (float x).compare? (int (.ofNat n))
        = some (compare (float x).level (int (.ofNat n)).level) :=
      compareFloat?_eq h.isNaN (rounded_floatOfInt _).isNaN
    have hlevel : (float x).level = i := h.2
    rw [hcompare, Option.any_some, Ordering.isLE_iff_ne_gt, compare_gt_iff_gt, not_lt, hlevel,
      le_level_iff h hpos, htoInt]
    simp [isFloat]

theorem contains_upTo_iff {n : Nat} (pos : 0 < n) (hn : n ≤ Int64.maxValue.toInt) (x : Number) :
  (upTo n pos).contains x ↔ Shows x n
  := by
  rw [contains, Bool.and_eq_true, Bool.and_eq_true, isIntegral_iff]
  constructor
  · rintro ⟨⟨⟨i, hi⟩, hone⟩, hcount⟩
    have hpos := (one_le_iff hi).1 hone
    exact ⟨i, hi, hpos, (le_count_iff hi hpos hn).1 hcount⟩
  · rintro ⟨i, hi, hpos, hcount⟩
    exact ⟨⟨⟨i, hi⟩, (one_le_iff hi).2 hpos⟩, (le_count_iff hi hpos hn).2 hcount⟩

end Faces

namespace Die

theorem exists_showing_iff (x : Number) (f : Faces) :
  (∃ d, showing x f = .ok d) ↔ f.contains x
  := by
  rw [showing]
  split <;> rename_i h <;> simp [h]

/-- Let there be no more sides than an integer counts. A number is accepted as an outcome exactly
where it is an integer between one and the count, or is the double that the count is rounded to. The
outcome of a die that is read from a text is no other. -/
theorem showing_upTo_iff {n : Nat} (pos : 0 < n) (hn : n ≤ Int64.maxValue.toInt) :
  (∀ x : Number, (∃ d, showing x (.upTo n pos) = .ok d) ↔ Faces.Shows x n)
    ∧ ∀ (s : String) (x : Number), Value.ofText s = .ok (.die x (.upTo n pos)) → Faces.Shows x n
  := by
  constructor
  · intro x
    rw [exists_showing_iff]
    exact Faces.contains_upTo_iff pos hn x
  · intro s x hs
    have hcontains := (Value.consistent_of_ofText hs _ (.self x _)).contains
    exact (Faces.contains_upTo_iff pos hn x).1 hcontains

/-- On a count of sides after the fifty-third power of two, the power is accepted as a double. -/
theorem showing_power :
  (0 < 9007199254740993 ∧ ((9007199254740993 : Nat) : Int) ≤ Int64.maxValue.toInt)
    ∧ ∃ d, showing (.float 9007199254740992) (.upTo 9007199254740993 (by decide)) = .ok d
  := by
  have hn : ((9007199254740993 : Nat) : Int) ≤ Int64.maxValue.toInt := by decide
  refine ⟨⟨by decide, hn⟩, ?_⟩
  apply ((showing_upTo_iff (by decide) hn).1 _).2
  have hfraction : Binary.ofFloat? 9007199254740992 = some ⟨false, 2 ^ 52, 1⟩ := by decide +kernel
  refine ⟨9007199254740992, ⟨by decide +kernel, ?_⟩, by decide, .inl (by decide)⟩
  rw [Float.rational_of_ofFloat? hfraction, Binary.rational]
  norm_num

/-- The double that a die shows, as a binary fraction, and the count of its sides. -/
def doubleOnCount? : Value → Option (Binary × Nat)
  | .die (.float x) (.upTo n _) => (Binary.ofFloat? x).map (·, n)
  | .die (.float _) (.listed _ _) | .die (.int _) _ | .number _ | .list _ => none

theorem exists_of_doubleOnCount? {v : Value} {b : Binary} {n : Nat}
    (h : doubleOnCount? v = some (b, n)) :
  ∃ x pos, v = .die (.float x) (.upTo n pos) ∧ Binary.ofFloat? x = some b
  := by
  unfold doubleOnCount? at h
  split at h
  · rename_i x n' pos
    obtain ⟨b', hb, heq⟩ := Option.map_eq_some_iff.1 h
    cases heq
    exact ⟨x, pos, rfl, hb⟩
  all_goals cases h

/-- The text of a die with as many sides as an integer counts, which shows one more. -/
def oversized : String :=
  "\x7b!die,9223372036854775808,9223372036854775807\x7d"

/-- A number may be accepted as an outcome, also of a die that is read from a text, although it is
greater than the count of sides. -/
theorem ofText_oversized :
  ∃ x pos, Value.ofText oversized = .ok (.die x (.upTo 9223372036854775807 pos))
    ∧ (∃ d, showing x (.upTo 9223372036854775807 pos) = .ok d) ∧ x.Exactly 9223372036854775808
  := by
  have hread : (Value.ofText oversized).toOption.bind doubleOnCount?
      = some (⟨false, 2 ^ 52, 11⟩, 9223372036854775807) := by decide +kernel
  obtain ⟨v, hv, hdouble⟩ := Option.bind_eq_some_iff.1 hread
  obtain ⟨x, pos, rfl, hb⟩ := exists_of_doubleOnCount? hdouble
  have htext := eq_ok_of_toOption hv
  refine ⟨.float x, pos, htext, ?_, ?_, ?_⟩
  · rw [exists_showing_iff]
    exact (Value.consistent_of_ofText htext _ (.self _ _)).contains
  · rw [← Binary.isSome_ofFloat?, hb]
    rfl
  · rw [Float.rational_of_ofFloat? hb, Binary.rational]
    norm_num

end Die

end Dice
