import Dice.Proofs.Choice.Tiers
import Dice.Proofs.Float.Monotone
import Dice.Proofs.Value.Consistent

/-!
# The order of numbers

Two integers compare exactly, and any other two numbers on the level of doubles. Rounding keeps the
order, so no number is below one on a lower level; but integers of one level are still ordered among
themselves, and equal to all the doubles there. Equality is no equivalence where several integers
share a level with a double. Where this does not happen, numbers compare by a key: their level and,
on a level without doubles, the integer.
-/

namespace Dice.Number

/-- The rational that a number is as a double. -/
def level (x : Number) : ℚ :=
  Float.rational x.toFloat

theorem isNaN_toFloat (x : Number) :
  x.toFloat.isNaN = x.isNaN
  := by
  cases x with
  | int n => exact (rounded_floatOfInt n).isNaN
  | float x => rfl

/-- Integers are on the levels of their order. -/
theorem level_mono {n m : Int64} (h : n.toInt < m.toInt) :
  (int n).level ≤ (int m).level
  := (rounded_floatOfInt n).mono (rounded_floatOfInt m) h

/-- Two numbers are integers, which compare exactly, or compare by their levels. -/
theorem compare?_cases {x y : Number} (hx : x.isNaN = false) (hy : y.isNaN = false) :
  (∃ n m : Int64, x = int n ∧ y = int m ∧ x.compare? y = some (compare n.toInt m.toInt))
    ∨ x.compare? y = some (compare x.level y.level)
  := by
  have hlevel := compareFloat?_eq ((isNaN_toFloat x).trans hx) ((isNaN_toFloat y).trans hy)
  cases x with
  | int n =>
    cases y with
    | int m => exact .inl ⟨n, m, rfl, rfl, rfl⟩
    | float y => exact .inr hlevel
  | float x => exact .inr hlevel

theorem compare?_swap {x y : Number} (hx : x.isNaN = false) (hy : y.isNaN = false) :
  y.compare? x = (x.compare? y).map Ordering.swap
  := by
  have h := compareFloat?_eq ((isNaN_toFloat x).trans hx) ((isNaN_toFloat y).trans hy)
  have h' := compareFloat?_eq ((isNaN_toFloat y).trans hy) ((isNaN_toFloat x).trans hx)
  have hswap : compareFloat? y.toFloat x.toFloat
      = (compareFloat? x.toFloat y.toFloat).map Ordering.swap := by
    rw [h, h']
    exact congrArg some Std.OrientedOrd.eq_swap
  cases x with
  | int n =>
    cases y with
    | int m => exact congrArg some Std.OrientedOrd.eq_swap
    | float y => exact hswap
  | float x => cases y <;> exact hswap

/-- Two numbers compare unless one of them is a NaN. -/
theorem compare?_eq_none_iff {x y : Number} :
  x.compare? y = none ↔ x.isNaN ∨ y.isNaN
  := by
  have hfloats := compareFloat?_eq_none_iff (x := x.toFloat) (y := y.toFloat)
  rw [isNaN_toFloat, isNaN_toFloat] at hfloats
  cases x with
  | int n =>
    cases y with
    | int m => exact iff_of_false (Option.some_ne_none _) (by simp [isNaN])
    | float y => exact hfloats
  | float x => exact hfloats

/-! ### Levels -/

/-- What does not compare greater is on no greater level. -/
theorem level_le {x y : Number} (hx : x.isNaN = false) (hy : y.isNaN = false)
    (h : x.compare? y ≠ some .gt) :
  x.level ≤ y.level
  := by
  rcases compare?_cases hx hy with ⟨n, m, rfl, rfl, hcompare⟩ | hcompare
  · rw [hcompare, ne_eq, Option.some.injEq, compare_gt_iff_gt, not_lt] at h
    rcases h.lt_or_eq with hlt | heq
    · exact level_mono hlt
    · rw [Int64.toInt_inj.1 heq]
  · rw [hcompare, ne_eq, Option.some.injEq, compare_gt_iff_gt, not_lt] at h
    exact h

/-- Only integers are ordered on one level. -/
theorem integers_of_level_le {x y : Number} (hx : x.isNaN = false) (hy : y.isNaN = false)
    (h : x.compare? y = some .lt) (hlevel : y.level ≤ x.level) :
  ∃ n m : Int64, x = int n ∧ y = int m ∧ n.toInt < m.toInt
  := by
  rcases compare?_cases hx hy with ⟨n, m, rfl, rfl, hcompare⟩ | hcompare
  · rw [hcompare, Option.some.injEq, compare_lt_iff_lt] at h
    exact ⟨n, m, rfl, rfl, h⟩
  · rw [hcompare, Option.some.injEq, compare_lt_iff_lt] at h
    exact absurd h hlevel.not_gt

/-- An integer is equal to the doubles on its level. -/
theorem int_beq_float_iff {n : Int64} {x : Float} (hx : x.isNaN = false) :
  int n == float x ↔ (int n).level = (float x).level
  := by
  have hcompare := compareFloat?_eq (rounded_floatOfInt n).isNaN hx
  change (compareFloat? (floatOfInt n) x == some .eq) = true ↔ _
  rw [hcompare, beq_iff_eq, Option.some.injEq, compare_eq_iff_eq]
  rfl

/-- A number below one that is not above a third is not above the third. -/
theorem compare?_ne_gt {x y z : Number} (hx : x.isNaN = false) (hy : y.isNaN = false)
    (hz : z.isNaN = false) (hxy : x.compare? y = some .lt) (hyz : y.compare? z ≠ some .gt) :
  x.compare? z ≠ some .gt
  := by
  intro hxz
  have hzx : z.compare? x = some .lt := by
    rw [compare?_swap hx hz, hxz]
    rfl
  have hle : x.level ≤ y.level := level_le hx hy (by rw [hxy]; decide)
  have hle' : y.level ≤ z.level := level_le hy hz hyz
  have hle'' : z.level ≤ x.level := level_le hz hx (by rw [hzx]; decide)
  -- The three are on one level, so they are integers, and these have no cycle.
  obtain ⟨n, m, rfl, rfl, hlt⟩ := integers_of_level_le hx hy hxy (hle'.trans hle'')
  obtain ⟨k, n', rfl, hn, hlt'⟩ := integers_of_level_le hz hx hzx (hle.trans hle')
  cases hn
  apply hyz
  change some (compare m.toInt k.toInt) = some .gt
  rw [compare_gt_iff_gt.2 (hlt'.trans hlt)]

/-! ### Keys -/

/-- Of some numbers, no double is equal to several integers. -/
def Untangled (xs : List Number) : Prop :=
  ∀ (x : Float) (n m : Int64), float x ∈ xs → int n ∈ xs → int m ∈ xs →
    int n == float x → int m == float x → n = m

/-- Whether the number is a double. -/
def isFloat : Number → Bool
  | int _ => false
  | float _ => true

/-- The integer that a number is among others, on a level without doubles. -/
def offset (xs : List Number) : Number → Int
  | int n => if ∃ x ∈ xs, x.isFloat ∧ int n == x then 0 else n.toInt
  | float _ => 0

/-- The key by which a number compares with others. -/
def key (xs : List Number) (x : Number) : ℚ ×ₗ ℤ :=
  toLex (x.level, x.offset xs)

/-- A number on a lesser level has the lesser key. -/
theorem key_lt_of_level {xs : List Number} {x y : Number} (h : x.level < y.level) :
  x.key xs < y.key xs
  := Prod.Lex.toLex_lt_toLex.2 (.inl h)

section

variable {xs : List Number} (hnum : ∀ x ∈ xs, x.isNaN = false)

include hnum

/-- On a level with a double, all have the same offset. -/
theorem offset_eq_zero {x : Float} (hx : float x ∈ xs) {y : Number}
    (hlevel : y.level = (float x).level) :
  y.offset xs = 0
  := by
  cases y with
  | int n => exact if_pos ⟨float x, hx, rfl, (int_beq_float_iff (hnum _ hx)).2 hlevel⟩
  | float y => rfl

theorem compare?_float {x y : Number} (hx : x ∈ xs) (hy : y ∈ xs) (hfloat : x.isFloat ∨ y.isFloat) :
  x.compare? y = some (compare (x.key xs) (y.key xs))
  := by
  have hoffset : x.level = y.level → x.offset xs = y.offset xs := by
    intro hlevel
    rcases hfloat with h | h
    · cases x with
      | int n => cases h
      | float x => exact (offset_eq_zero hnum hx hlevel.symm).symm
    · cases y with
      | int n => cases h
      | float y => exact offset_eq_zero hnum hy hlevel
  rcases compare?_cases (hnum x hx) (hnum y hy) with ⟨n, m, rfl, rfl, -⟩ | hcompare
  · rcases hfloat with h | h <;> cases h
  · rw [hcompare]
    rcases lt_trichotomy x.level y.level with h | h | h
    · rw [compare_lt_iff_lt.2 h, compare_lt_iff_lt.2 (key_lt_of_level h)]
    · have hkey : x.key xs = y.key xs := by
        rw [key, key, hoffset h, h]
      rw [compare_eq_iff_eq.2 h, compare_eq_iff_eq.2 hkey]
    · rw [compare_gt_iff_gt.2 h, compare_gt_iff_gt.2 (key_lt_of_level h)]

theorem key_lt {n m : Int64} (h : Untangled xs) (hn : int n ∈ xs) (hm : int m ∈ xs)
    (hlt : n.toInt < m.toInt) :
  (int n).key xs < (int m).key xs
  := by
  rcases (level_mono hlt).lt_or_eq with hlevel | hlevel
  · exact key_lt_of_level hlevel
  · -- A double of their level would be equal to both.
    have hnone : ∀ k : Int64, (int k).level = (int n).level →
        ¬ ∃ x ∈ xs, x.isFloat ∧ int k == x := by
      rintro k hk ⟨x, hx, hfloat, hequal⟩
      cases x with
      | int l => cases hfloat
      | float x =>
        have hkx := (int_beq_float_iff (hnum _ hx)).1 hequal
        have hnx := (int_beq_float_iff (hnum _ hx)).2 (hk.symm.trans hkx)
        have hmx := (int_beq_float_iff (hnum _ hx)).2 ((hlevel.symm.trans hk.symm).trans hkx)
        rw [h x n m hx hn hm hnx hmx] at hlt
        exact lt_irrefl _ hlt
    rw [key, key, Prod.Lex.toLex_lt_toLex, offset, if_neg (hnone n rfl), offset,
      if_neg (hnone m hlevel.symm)]
    exact .inr ⟨hlevel, hlt⟩

/-- Numbers of which no double is equal to several integers compare by their keys. -/
theorem keyed_of_untangled (h : Untangled xs) :
  Keyed (key xs) xs
  := by
  intro x hx y hy
  cases x with
  | int n =>
    cases y with
    | int m =>
      change some (compare n.toInt m.toInt) = _
      rcases lt_trichotomy n.toInt m.toInt with hlt | heq | hlt
      · rw [compare_lt_iff_lt.2 hlt, compare_lt_iff_lt.2 (key_lt hnum h hx hy hlt)]
      · have hkey : (int n).key xs = (int m).key xs := by
          rw [Int64.toInt_inj.1 heq]
        rw [compare_eq_iff_eq.2 heq, compare_eq_iff_eq.2 hkey]
      · rw [compare_gt_iff_gt.2 hlt, compare_gt_iff_gt.2 (key_lt hnum h hy hx hlt)]
    | float y => exact compare?_float hnum hx hy (.inr rfl)
  | float x => exact compare?_float hnum hx hy (.inl rfl)

end

end Dice.Number
