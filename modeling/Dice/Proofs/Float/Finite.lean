import Dice.Number.Basic
import Mathlib

/-!
# Finite doubles

A double is finite exactly where it has an exact value, and then it is equal to itself.
-/

namespace Dice

open Float.Model

/-! ### The fields of a double -/

theorem toNat_unpackExponent (b : BitVec Format.binary64.numBits) :
  (UnpackedFloat.unpackExponent b).toNat = b.toNat / 2 ^ 52 % 2 ^ 11
  := by
  simp [UnpackedFloat.unpackExponent, BitVec.extractLsb, Nat.shiftRight_eq_div_pow]

/-- A double is finite unless all bits of its exponent are set. -/
theorem Float.isFinite_iff (x : Float) :
  x.isFinite = true ↔ x.toBits.toNat / 2 ^ 52 % 2 ^ 11 ≠ 2047
  := by
  have htop : @UnpackedFloat.unpackExponent .binary64 x.toBits.toBitVec = -1#_
      ↔ x.toBits.toNat / 2 ^ 52 % 2 ^ 11 = 2047 := by
    rw [← BitVec.toNat_inj, toNat_unpackExponent]
    rfl
  rw [ne_eq, ← htop]
  change (UnpackedFloat.unpack Format.binary64 x.toBits.toBitVec).isFinite = true ↔ _
  unfold UnpackedFloat.unpack
  by_cases h : @UnpackedFloat.unpackExponent .binary64 x.toBits.toBitVec = -1#_
  · simp only [h, if_true, not_true_eq_false, iff_false]
    split <;> exact Bool.false_ne_true
  · simp only [h, if_false, not_false_eq_true, iff_true]
    split
    · split <;> rfl
    · rfl

/-- An exact value is that of a double whose exponent has a bit that is not set. -/
theorem Binary.isSome_ofFloat?_iff (x : Float) :
  (Binary.ofFloat? x).isSome ↔ x.toBits.toNat / 2 ^ 52 % 2 ^ 11 ≠ 2047
  := by
  unfold ofFloat?
  simp only []
  generalize x.toBits.toNat / 2 ^ 52 % 2 ^ 11 = e
  split
  · simp
  · simp
  · rename_i h
    exact iff_of_true rfl h

/-- The finite doubles are those with an exact value. -/
theorem Binary.isSome_ofFloat? (x : Float) :
  (Binary.ofFloat? x).isSome = x.isFinite
  := by
  rw [Bool.eq_iff_iff, isSome_ofFloat?_iff, Float.isFinite_iff]

theorem Float.isNaN_of_isFinite {x : Float} (h : x.isFinite) :
  x.isNaN = false
  := by
  change x.toModel.unpack.isFinite = true at h
  change x.toModel.unpack.isNaN = false
  cases hx : x.toModel.unpack <;> rw [hx] at h
  · rfl
  · cases h
  · rfl
  · rfl

/-! ### The order of a double and itself -/

/-- Whatever is a number compares equal to itself. -/
theorem compare_self {u : UnpackedFloat} (h : u.isNaN = false) :
  u.compare u = some .eq
  := by
  cases u with
  | notANumber => cases h
  | infinity s => cases s <;> rfl
  | zero s => rfl
  | finite s m e hm => cases s <;> simp [UnpackedFloat.compare, Std.ReflCmp.compare_self]

/-- Whatever is a number is equal to itself and not below itself. -/
theorem Number.compareFloat?_self {x : Float} (h : x.isNaN = false) :
  compareFloat? x x = some .eq
  := by
  have hcompare : x.toModel.unpack.compare x.toModel.unpack = some .eq := compare_self h
  have hbeq : (x == x) = true := by
    change (x.toModel.unpack.compare x.toModel.unpack == some .eq) = true
    rw [hcompare]
    rfl
  have hlt : ¬ x < x := by
    intro h
    have h' : (x.toModel.unpack.compare x.toModel.unpack == some .lt) = true :=
      of_decide_eq_true h
    rw [hcompare] at h'
    cases h'
  rw [compareFloat?, if_neg hlt, if_pos hbeq]

/-! ### Signs -/

/-- A double with a finite opposite is finite. -/
theorem Float.isFinite_of_neg {x : Float} (h : (-x).isFinite) :
  x.isFinite
  := by
  change (Float.Model.pack x.toModel.unpack.neg).unpack.isFinite = true at h
  change x.toModel.unpack.isFinite = true
  cases hx : x.toModel.unpack with
  | notANumber =>
    rw [hx] at h
    revert h
    decide
  | infinity s =>
    rw [hx] at h
    revert h
    cases s <;> decide
  | zero s => rfl
  | finite s m e hm => rfl

end Dice
