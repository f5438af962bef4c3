import Dice.Proofs.Float.Arithmetic
import Dice.Proofs.Float.Finite

/-!
# The order of doubles

Doubles compare as the rationals that they are, the infinities lying beyond all others.
-/

namespace Dice

open Float.Model Float.Model.UnpackedFloat

/-! ### Doubles as rationals -/

/-- The power of two that ends the range of the finite doubles. -/
def Float.rangeEnd : ℚ :=
  2 ^ 1024

/-- The rational that an unpacked double is. An infinity stands for the end of the range, and a NaN
for nothing. -/
def rational : UnpackedFloat → ℚ
  | .notANumber => 0
  | .infinity .positive => Float.rangeEnd
  | .infinity .negative => -Float.rangeEnd
  | .zero _ => 0
  | .finite .positive m q _ => m * 2 ^ q
  | .finite .negative m q _ => -(m * 2 ^ q)

/-- The rational that a double is. -/
def Float.rational (x : Float) : ℚ :=
  Dice.rational x.toModel.unpack

/-- A significand and an exponent that are unpacked are those of a double. -/
def IsUnpacked : UnpackedFloat → Prop
  | .finite _ m q _ => IsDouble m q
  | _ => True

theorem unpack_zero (s : Sign) :
  (Float.ofModel (.pack (.zero s))).toModel.unpack = .zero s
  := by
  cases s <;> rfl

theorem IsDouble.unpack_ofModel {m : Nat} {q : Int} (hd : IsDouble m q) (s : Sign) :
  (Float.ofModel (.pack (.finite s m q hd.pos))).toModel.unpack = .finite s m q hd.pos
  := hd.unpack_pack s

theorem isUnpacked_unpack (x : Float) :
  IsUnpacked x.toModel.unpack
  := by
  cases hx : x.toModel.unpack with
  | notANumber => trivial
  | infinity s => trivial
  | zero s => trivial
  | finite s m q hm =>
    have hfinite : x.isFinite := by
      change x.toModel.unpack.isFinite = true
      rw [hx]
      rfl
    rw [← Binary.isSome_ofFloat?] at hfinite
    obtain ⟨b, hb⟩ := Option.isSome_iff_exists.1 hfinite
    by_cases hzero : b.significand = 0
    · rw [Binary.eq_zero hb hzero, unpack_zero] at hx
      cases hx
    · obtain ⟨hd, hpack⟩ := Binary.exists_isDouble hb hzero
      rw [hpack, hd.unpack_ofModel] at hx
      cases hx
      exact hd

/-- Of two doubles, the one with the greater exponent is greater. -/
theorem IsDouble.lt_of_exponent_lt
    {m₁ m₂ : Nat} {q₁ q₂ : Int} (h₁ : IsDouble m₁ q₁) (h₂ : IsDouble m₂ q₂) (hq : q₁ < q₂) :
  (m₁ : ℚ) * 2 ^ q₁ < m₂ * 2 ^ q₂
  := by
  have hmin := h₁.min
  have hfull : 2 ^ 52 ≤ m₂ := h₂.full.resolve_right (by omega)
  have hlow : (2 : ℚ) ^ 52 ≤ m₂ := by exact_mod_cast hfull
  have hhigh : (m₁ : ℚ) < 2 ^ 53 := by exact_mod_cast h₁.lt
  calc (m₁ : ℚ) * 2 ^ q₁ < 2 ^ 53 * 2 ^ q₁ := mul_lt_mul_of_pos_right hhigh (two_zpow_pos q₁)
    _ = 2 ^ (52 + (q₁ + 1)) := by
      rw [← two_zpow_add]
      congr 1
      omega
    _ ≤ 2 ^ (52 + q₂) := zpow_le_zpow_right₀ one_le_two (by omega)
    _ = 2 ^ 52 * 2 ^ q₂ := two_zpow_add 52 q₂
    _ ≤ m₂ * 2 ^ q₂ := mul_le_mul_of_nonneg_right hlow (two_zpow_pos q₂).le

/-- Positive doubles compare by their exponents and then by their significands. -/
theorem IsDouble.compare_eq
    {m₁ m₂ : Nat} {q₁ q₂ : Int} (h₁ : IsDouble m₁ q₁) (h₂ : IsDouble m₂ q₂) :
  (compare q₁ q₂).then (compare m₁ m₂) = compare ((m₁ : ℚ) * 2 ^ q₁) (m₂ * 2 ^ q₂)
  := by
  rcases lt_trichotomy q₁ q₂ with hq | rfl | hq
  · rw [compare_lt_iff_lt.2 hq, compare_lt_iff_lt.2 (h₁.lt_of_exponent_lt h₂ hq)]
    rfl
  · have hscale : StrictMono fun m : Nat => (m : ℚ) * 2 ^ q₁ := by
      intro m m' hm
      exact mul_lt_mul_of_pos_right (Nat.cast_lt.2 hm) (two_zpow_pos q₁)
    rw [compare_eq_iff_eq.2 rfl, Ordering.eq_then, ← cmp_eq_compare, ← cmp_eq_compare]
    exact (hscale.cmp_map_eq m₁ m₂).symm
  · rw [compare_gt_iff_gt.2 hq, compare_gt_iff_gt.2 (h₂.lt_of_exponent_lt h₁ hq)]
    rfl

theorem IsDouble.rational_pos {m : Nat} {q : Int} (hd : IsDouble m q) :
  0 < (m : ℚ) * 2 ^ q
  := mul_pos (Nat.cast_pos.2 hd.pos) (two_zpow_pos q)

theorem IsDouble.rational_lt {m : Nat} {q : Int} (hd : IsDouble m q) :
  (m : ℚ) * 2 ^ q < Float.rangeEnd
  := by
  have hmax := hd.max
  have hhigh : (m : ℚ) < 2 ^ 53 := by exact_mod_cast hd.lt
  calc (m : ℚ) * 2 ^ q < 2 ^ 53 * 2 ^ q := mul_lt_mul_of_pos_right hhigh (two_zpow_pos q)
    _ = 2 ^ (53 + q) := (two_zpow_add 53 q).symm
    _ ≤ 2 ^ (1024 : Int) := zpow_le_zpow_right₀ one_le_two (by omega)
    _ = 2 ^ 1024 := zpow_natCast 2 1024

/-! ### Comparisons -/

theorem Float.rangeEnd_pos :
  0 < rangeEnd
  := by
  rw [rangeEnd]
  positivity

/-- A finite double lies between the infinities, on its side of zero. -/
theorem rational_positive {m : Nat} {q : Int} (hd : IsDouble m q) :
  0 < rational (.finite .positive m q hd.pos)
    ∧ rational (.finite .positive m q hd.pos) < Float.rangeEnd
  := ⟨hd.rational_pos, hd.rational_lt⟩

theorem rational_negative {m : Nat} {q : Int} (hd : IsDouble m q) :
  -Float.rangeEnd < rational (.finite .negative m q hd.pos)
    ∧ rational (.finite .negative m q hd.pos) < 0
  := ⟨neg_lt_neg hd.rational_lt, neg_lt_zero.2 hd.rational_pos⟩

theorem compare_of_compares {a b : ℚ} (o : Ordering) (h : o.Compares a b) :
  some o = some (compare a b)
  := congrArg some ((compare_iff a b).2 h).symm

theorem swap_compare (a b : ℚ) :
  (compare a b).swap = compare (-a) (-b)
  := by
  have hneg : StrictAnti (fun x : ℚ => -x) := fun _ _ h => neg_lt_neg h
  rw [← cmp_eq_compare, ← cmp_eq_compare, cmp_swap, hneg.cmp_map_eq]

section

variable {v : UnpackedFloat} (hv : IsUnpacked v) (hnum : v.isNaN = false)

include hv hnum

/-- An infinity lies beyond all numbers but itself. -/
theorem compare_infinity (s : Sign) :
  (infinity s).compare v = some (compare (rational (.infinity s)) (rational v))
  := by
  have htop := Float.rangeEnd_pos
  have hbottom : -Float.rangeEnd < 0 := neg_lt_zero.2 htop
  cases s with
  | positive =>
    cases v with
    | notANumber => cases hnum
    | infinity s' =>
      cases s' with
      | positive => exact compare_of_compares .eq rfl
      | negative => exact compare_of_compares .gt (hbottom.trans htop)
    | zero s' => exact compare_of_compares .gt htop
    | finite s' m q hm =>
      cases s' with
      | positive => exact compare_of_compares .gt (rational_positive hv).2
      | negative => exact compare_of_compares .gt ((rational_negative hv).2.trans htop)
  | negative =>
    cases v with
    | notANumber => cases hnum
    | infinity s' =>
      cases s' with
      | positive => exact compare_of_compares .lt (hbottom.trans htop)
      | negative => exact compare_of_compares .eq rfl
    | zero s' => exact compare_of_compares .lt hbottom
    | finite s' m q hm =>
      cases s' with
      | positive => exact compare_of_compares .lt (hbottom.trans (rational_positive hv).1)
      | negative => exact compare_of_compares .lt (rational_negative hv).1

/-- Both zeros lie between the numbers of the two signs. -/
theorem compare_zero (s : Sign) :
  (zero s).compare v = some (compare (rational (.zero s)) (rational v))
  := by
  cases v with
  | notANumber => cases hnum
  | infinity s' =>
    cases s' with
    | positive => exact compare_of_compares .lt Float.rangeEnd_pos
    | negative => exact compare_of_compares .gt (neg_lt_zero.2 Float.rangeEnd_pos)
  | zero s' => exact compare_of_compares .eq rfl
  | finite s' m q hm =>
    cases s' with
    | positive => exact compare_of_compares .lt (rational_positive hv).1
    | negative => exact compare_of_compares .gt (rational_negative hv).2

/-- Finite doubles of one sign compare by their exponents and significands. -/
theorem compare_finite (s : Sign) {m : Nat} {q : Int} (hd : IsDouble m q) :
  (finite s m q hd.pos).compare v
    = some (compare (rational (.finite s m q hd.pos)) (rational v))
  := by
  have htop := Float.rangeEnd_pos
  have hbottom : -Float.rangeEnd < 0 := neg_lt_zero.2 htop
  cases s with
  | positive =>
    cases v with
    | notANumber => cases hnum
    | infinity s' =>
      cases s' with
      | positive => exact compare_of_compares .lt (rational_positive hd).2
      | negative => exact compare_of_compares .gt (hbottom.trans (rational_positive hd).1)
    | zero s' => exact compare_of_compares .gt (rational_positive hd).1
    | finite s' m' q' hm' =>
      cases s' with
      | positive => exact congrArg some (IsDouble.compare_eq hd hv)
      | negative =>
        exact compare_of_compares .gt ((rational_negative hv).2.trans (rational_positive hd).1)
  | negative =>
    cases v with
    | notANumber => cases hnum
    | infinity s' =>
      cases s' with
      | positive => exact compare_of_compares .lt ((rational_negative hd).2.trans htop)
      | negative => exact compare_of_compares .gt (rational_negative hd).1
    | zero s' => exact compare_of_compares .lt (rational_negative hd).2
    | finite s' m' q' hm' =>
      cases s' with
      | positive =>
        exact compare_of_compares .lt ((rational_negative hd).2.trans (rational_positive hv).1)
      | negative =>
        have hcompare := congrArg Ordering.swap (IsDouble.compare_eq hd hv)
        exact congrArg some (hcompare.trans (swap_compare _ _))

/-- Whatever are numbers compare as rationals. -/
theorem compare_rational {u : UnpackedFloat} (hu : IsUnpacked u) (hnum' : u.isNaN = false) :
  u.compare v = some (compare (rational u) (rational v))
  := by
  cases u with
  | notANumber => cases hnum'
  | infinity s => apply compare_infinity hv hnum
  | zero s => apply compare_zero hv hnum
  | finite s m q hm => apply compare_finite hv hnum s hu

end

theorem Float.lt_iff {x y : Float} (hx : x.isNaN = false) (hy : y.isNaN = false) :
  x < y ↔ rational x < rational y
  := by
  have hcompare := compare_rational (isUnpacked_unpack y) hy (isUnpacked_unpack x) hx
  have hlt : x < y ↔ x.toModel.unpack.compare y.toModel.unpack = some .lt :=
    decide_eq_true_iff.trans beq_iff_eq
  rw [hlt, hcompare, Option.some.injEq, compare_lt_iff_lt]
  rfl

theorem Float.beq_iff {x y : Float} (hx : x.isNaN = false) (hy : y.isNaN = false) :
  x == y ↔ rational x = rational y
  := by
  have hcompare := compare_rational (isUnpacked_unpack y) hy (isUnpacked_unpack x) hx
  change (x.toModel.unpack.compare y.toModel.unpack == some .eq) = true ↔ _
  rw [hcompare, beq_iff_eq, Option.some.injEq, compare_eq_iff_eq]
  rfl

/-- Doubles that are numbers compare as rationals. -/
theorem Number.compareFloat?_eq {x y : Float} (hx : x.isNaN = false) (hy : y.isNaN = false) :
  compareFloat? x y = some (compare (Float.rational x) (Float.rational y))
  := by
  rw [compareFloat?]
  simp only [Float.lt_iff hx hy, Float.lt_iff hy hx, Float.beq_iff hx hy]
  rcases lt_trichotomy (Float.rational x) (Float.rational y) with h | h | h
  · rw [if_pos h, compare_lt_iff_lt.2 h]
  · rw [if_neg h.not_lt, if_pos h, compare_eq_iff_eq.2 h]
  · rw [if_neg h.not_gt, if_neg h.ne', if_pos h, compare_gt_iff_gt.2 h]

/-- A NaN does not compare. -/
theorem compare_eq_none {u v : UnpackedFloat} (h : u.isNaN ∨ v.isNaN) :
  u.compare v = none
  := by
  cases u with
  | notANumber => rfl
  | _ =>
    cases v with
    | notANumber => rfl
    | _ => simp [UnpackedFloat.isNaN] at h

theorem Number.compareFloat?_eq_none_iff {x y : Float} :
  compareFloat? x y = none ↔ x.isNaN ∨ y.isNaN
  := by
  constructor
  · intro hnone
    by_contra h
    obtain ⟨hx, hy⟩ := not_or.1 h
    rw [compareFloat?_eq (Bool.eq_false_iff.2 hx) (Bool.eq_false_iff.2 hy)] at hnone
    cases hnone
  · intro h
    have hcompare : x.toModel.unpack.compare y.toModel.unpack = none := compare_eq_none h
    have hcompare' : y.toModel.unpack.compare x.toModel.unpack = none := compare_eq_none h.symm
    have hlt : ∀ {x y : Float}, x.toModel.unpack.compare y.toModel.unpack = none → ¬ x < y := by
      intro x y hcompare hlt
      have hlt' := beq_iff_eq.1 (of_decide_eq_true hlt)
      rw [hcompare] at hlt'
      cases hlt'
    have hbeq : ¬ x == y := by
      change ¬ (x.toModel.unpack.compare y.toModel.unpack == some .eq) = true
      rw [hcompare]
      decide
    rw [compareFloat?, if_neg (hlt hcompare), if_neg hbeq, if_neg (hlt hcompare')]

end Dice
