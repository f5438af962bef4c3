import Dice.Number.Basic
import Mathlib

/-!
# The bits of a double

A double that is neither zero nor infinite is a sign, a significand and an exponent. They are
packed in its bits without the leading bit of the significand, and read off again.
-/

namespace Dice

open Float.Model Float.Model.UnpackedFloat

/-- The significand and the exponent of a double that is neither zero nor infinite. -/
structure IsDouble (m : Nat) (q : Int) : Prop where
  pos : 0 < m
  lt : m < 2 ^ 53
  min : -1074 ≤ q
  max : q ≤ 971
  full : 2 ^ 52 ≤ m ∨ q = -1074

/-- The exponent as it is packed: zero where the significand has no leading bit. -/
def biased (m : Nat) (q : Int) : Nat :=
  if 2 ^ 52 ≤ m then (q + 1075).toNat else 0

/-! ### Components -/

theorem toNat_append {j k : Nat} (x : BitVec j) (y : BitVec k) :
  (x ++ y).toNat = x.toNat * 2 ^ k + y.toNat
  := by
  rw [BitVec.toNat_append, ← Nat.shiftLeft_add_eq_or_of_lt y.isLt, Nat.shiftLeft_eq]

/-- The components lie beside each other. -/
theorem toNat_packComponents
    (s : Sign) (e : BitVec Format.binary64.exponentBits)
    (f : BitVec Format.binary64.mantissaBitsWithoutImplicit) :
  (packComponents .binary64 s e f).toNat = s.toBitVec.toNat * 2 ^ 63 + e.toNat * 2 ^ 52 + f.toNat
  := by
  change (s.toBitVec ++ e ++ f).toNat = _
  rw [toNat_append, toNat_append, Nat.add_mul, Nat.mul_assoc]
  rfl

/-- The leading bit of a significand is left out when it is packed. -/
theorem toNat_implicit {m : Nat} (hlow : 2 ^ 52 ≤ m) (hhigh : m < 2 ^ 53) :
  (1#1 ++ BitVec.ofNat 52 m).toNat = m
  := by
  rw [toNat_append, BitVec.toNat_ofNat, BitVec.toNat_ofNat]
  omega

/-! ### Packing -/

namespace IsDouble

variable {m : Nat} {q : Int}

theorem biased_lt (hd : IsDouble m q) :
  biased m q < 2047
  := by
  have hmax := hd.max
  rw [biased]
  split <;> omega

theorem biased_eq_zero_iff (hd : IsDouble m q) :
  biased m q = 0 ↔ m < 2 ^ 52
  := by
  have hmin := hd.min
  rw [biased]
  split <;> omega

/-- A double is packed with its exponent biased. -/
theorem pack (hd : IsDouble m q) (s : Sign) :
  UnpackedFloat.pack .binary64 (.finite s m q hd.pos)
    = packComponents .binary64 s (.ofNat _ (biased m q)) (.ofNat _ m)
  := by
  have hm := Nat.ne_of_gt hd.pos
  have hmax := hd.max
  have hexponent : (q + Format.binary64.exponentBias
      + Format.binary64.mantissaBitsWithoutImplicit).toNat = (q + 1075).toNat := by
    change (q + (1023 : Nat) + (52 : Nat)).toNat = (q + 1075).toNat
    omega
  rw [UnpackedFloat.pack]
  simp only [hexponent]
  rw [if_neg (by change ¬ 2048 ≤ _; omega)]
  rw [biased]
  by_cases hfull : 2 ^ 52 ≤ m
  · have hlog : m.log2 = 52 := (Nat.log2_eq_iff hm).2 ⟨hfull, hd.lt⟩
    rw [if_pos hfull, if_pos (by rw [hlog]; rfl)]
  · have hlog : m.log2 < 52 := (Nat.log2_lt hm).2 (by omega)
    rw [if_neg hfull, if_neg (by change ¬ m.log2 + 1 = 53; omega)]

/-- What is packed is unpacked as it was. -/
theorem unpack_pack (hd : IsDouble m q) (s : Sign) :
  UnpackedFloat.unpack .binary64 (UnpackedFloat.pack .binary64 (.finite s m q hd.pos))
    = .finite s m q hd.pos
  := by
  have hlt := hd.biased_lt
  have hmin := hd.min
  have hpos := hd.pos
  have hexponent : (BitVec.ofNat 11 (biased m q)).toNat = biased m q := by
    rw [BitVec.toNat_ofNat]
    omega
  have htop : BitVec.ofNat 11 (biased m q) ≠ -1#11 := by
    intro h
    have h' := congrArg BitVec.toNat h
    rw [hexponent] at h'
    change biased m q = 2047 at h'
    omega
  have hzero : BitVec.ofNat 11 (biased m q) = 0#11 ↔ m < 2 ^ 52 := by
    rw [← BitVec.toNat_inj, hexponent]
    exact hd.biased_eq_zero_iff
  rw [hd.pack, UnpackedFloat.unpack]
  simp only [unpackMantissa_packComponents, unpackExponent_packComponents,
    unpackSign_packComponents, Sign.ofBitVec_toBitVec]
  rw [if_neg htop]
  by_cases hsmall : m < 2 ^ 52
  · have hq : q = -1074 := hd.full.resolve_left (by omega)
    have hfraction : (BitVec.ofNat 52 m).toNat = m := by
      rw [BitVec.toNat_ofNat]
      omega
    have hne : BitVec.ofNat 52 m ≠ 0#52 := by
      intro h
      have h' := congrArg BitVec.toNat h
      rw [hfraction] at h'
      change m = 0 at h'
      omega
    rw [if_pos (hzero.2 hsmall), dif_neg hne]
    congr 1
    rw [hexponent, hd.biased_eq_zero_iff.2 hsmall, hq]
    rfl
  · rw [if_neg (mt hzero.1 hsmall)]
    congr 1
    · exact toNat_implicit (by omega) hd.lt
    · rw [hexponent, biased, if_pos (by omega)]
      change ((q + 1075).toNat : Int) - ((1023 : Nat) + (52 : Nat)) = q
      omega

/-- The bits of a double. -/
theorem toNat_pack (hd : IsDouble m q) (s : Sign) :
  (UnpackedFloat.pack .binary64 (.finite s m q hd.pos)).toNat
    = s.toBitVec.toNat * 2 ^ 63 + biased m q * 2 ^ 52 + m % 2 ^ 52
  := by
  have hlt := hd.biased_lt
  have hexponent : (BitVec.ofNat 11 (biased m q)).toNat = biased m q := by
    rw [BitVec.toNat_ofNat]
    omega
  rw [hd.pack, toNat_packComponents]
  change _ + (BitVec.ofNat 11 (biased m q)).toNat * _ + _ = _
  rw [hexponent]
  rfl

end IsDouble

/-! ### The exact value of a double -/

/-- The sign of a number that is negative or not. -/
def signOf (negative : Bool) : Sign :=
  if negative then .negative else .positive

theorem Float.eq_of_toNat {x : Float} {u : UnpackedFloat}
    (h : x.toBits.toNat = (UnpackedFloat.pack .binary64 u).toNat) :
  x = .ofModel (.pack u)
  := by
  rw [← Float.toBits_inj, ← UInt64.toNat_inj]
  exact h

namespace Binary

variable {x : Float} {b : Binary}

/-- The sign is the first bit. -/
theorem toNat_signOf (hb : b.negative = (x.toBits.toNat / 2 ^ 63 == 1)) :
  (signOf b.negative).toBitVec.toNat = x.toBits.toNat / 2 ^ 63
  := by
  have hlt : x.toBits.toNat < 2 ^ 64 := x.toBits.toNat_lt
  have htop : x.toBits.toNat / 2 ^ 63 = 0 ∨ x.toBits.toNat / 2 ^ 63 = 1 := by omega
  rw [signOf, hb]
  rcases htop with htop | htop
  · rw [htop]
    rfl
  · rw [htop]
    rfl

/-- The exact value of a double has the fields of its bits. -/
theorem fields (h : ofFloat? x = some b) :
  b.negative = (x.toBits.toNat / 2 ^ 63 == 1)
    ∧ b.significand < 2 ^ 53 ∧ -1074 ≤ b.exponent ∧ b.exponent ≤ 971
    ∧ (2 ^ 52 ≤ b.significand ∨ b.exponent = -1074)
    ∧ x.toBits.toNat / 2 ^ 52 % 2 ^ 11 = biased b.significand b.exponent
    ∧ x.toBits.toNat % 2 ^ 52 = b.significand % 2 ^ 52
  := by
  simp only [ofFloat?, Nat.pow_eq] at h
  split at h
  · rename_i he
    cases h
    refine ⟨rfl, ?_⟩
    dsimp only
    rw [he, biased, if_neg (by omega)]
    omega
  · cases h
  · rename_i hzero htop
    have hpos : x.toBits.toNat / 2 ^ 52 % 2 ^ 11 ≠ 0 := hzero
    have hlt : x.toBits.toNat / 2 ^ 52 % 2 ^ 11 ≠ 2047 := htop
    cases h
    refine ⟨rfl, ?_⟩
    dsimp only
    rw [biased, if_pos (by omega)]
    omega

/-- A double has the bits of its exact value. -/
theorem toNat_toBits (h : ofFloat? x = some b) :
  x.toBits.toNat = (signOf b.negative).toBitVec.toNat * 2 ^ 63
    + biased b.significand b.exponent * 2 ^ 52 + b.significand % 2 ^ 52
  := by
  obtain ⟨hsign, -, -, -, -, hexponent, hfraction⟩ := fields h
  rw [toNat_signOf hsign, ← hexponent, ← hfraction]
  omega

/-- A double whose exact value is not zero is a packed significand and exponent. -/
theorem exists_isDouble (h : ofFloat? x = some b) (hb : b.significand ≠ 0) :
  ∃ hd : IsDouble b.significand b.exponent,
    x = .ofModel (.pack (.finite (signOf b.negative) b.significand b.exponent hd.pos))
  := by
  obtain ⟨-, hlt, hmin, hmax, hfull, -, -⟩ := fields h
  have hd : IsDouble b.significand b.exponent := ⟨Nat.pos_of_ne_zero hb, hlt, hmin, hmax, hfull⟩
  refine ⟨hd, Float.eq_of_toNat ?_⟩
  rw [hd.toNat_pack, toNat_toBits h]

/-- A double whose exact value is zero is a signed zero. -/
theorem eq_zero (h : ofFloat? x = some b) (hb : b.significand = 0) :
  x = .ofModel (.pack (.zero (signOf b.negative)))
  := by
  apply Float.eq_of_toNat
  change _ = (packComponents .binary64 (signOf b.negative) 0#11 0#52).toNat
  rw [toNat_toBits h, hb, toNat_packComponents]
  rfl

end Binary

end Dice
