import Dice.Proofs.Code.RoundTrip
import Dice.Proofs.Decimal.Printing

/-!
# Settled numbers

The text of a double does not tell it from an integer, so a double with the text of a 64-bit
integer is read back as that integer. This is all that happens to a finite number, and the settled
number is equal to the number.
-/

namespace Dice

/-- The integer that a double is printed like, if there is one. -/
def Number.settled : Number → Number
  | int n => int n
  | float x =>
    match (Integer.ofText? (Decimal.ofFloat x)).bind int64? with
    | some n => int n
    | none => float x

/-! ### Signed numerals -/

/-- A finite number whose text is a signed numeral is read back from the numeral. -/
theorem Number.reread?_signed
    {x : Number} {negative : Bool} {kind : Token.Kind} {cs : List Char} (hx : x.isFinite)
    (hcs : Numeral kind cs) (h : x.chars = signed negative cs) :
  x.reread? = ofNumeral? negative cs
  := by
  cases negative with
  | true => exact Value.reread?_of_minus hx h
  | false =>
    obtain rfl : x.chars = cs := h
    exact Value.reread?_of_numeral hx hcs

/-- Signed digits denote a signed integer. -/
theorem Integer.ofText?_signed (negative : Bool) {cs : List Char} (h : Dotted cs) :
  ofText? (signed negative cs)
    = (digits? cs).map fun n : Nat => if negative then -(n : Int) else n
  := by
  cases negative with
  | true =>
    simp only [signed, if_true, ofText?]
    cases digits? cs <;> rfl
  | false =>
    obtain ⟨c, ds, rfl, hc⟩ := h.exists_cons
    rw [signed, if_neg Bool.false_ne_true]
    unfold ofText?
    split
    · rename_i heq
      cases heq
      rcases hc with hc | hc <;> cases hc
    · rename_i heq
      cases heq
      rcases hc with hc | hc <;> cases hc
    · rfl

theorem Integer.digits?_integer {cs : List Char} (h : Numeral .integer cs) :
  digits? cs = some (Nat.ofDigitChars 10 cs 0)
  := by
  obtain ⟨c, ds, rfl, hc⟩ := h.exists_cons
  rw [digits?, h.all_isDigit]
  rfl

theorem Integer.digits?_eq_none {cs : List Char} (h : cs.all Char.isDigit = false) :
  digits? cs = none
  := by
  rw [digits?, h, Bool.and_false]
  rfl

/-! ### Settled doubles -/

/-- A numeral of a decimal that denotes a finite double is read as the double. -/
theorem ofDecimal?_of_denotes
    {negative : Bool} {cs : List Char} {d : Decimal} {x : Float} (hx : x.isFinite)
    (hd : Decimal.ofNumeral? cs = some d) (h : Decimal.Denotes negative d x) :
  Value.ofDecimal? negative cs = some (.float x)
  := by
  have heq := h.toFloat_eq
  have hfinite : d.toFloat.isFinite := by
    cases negative with
    | true =>
      apply Float.isFinite_of_neg
      rw [if_pos rfl] at heq
      rw [heq]
      exact hx
    | false =>
      rw [if_neg Bool.false_ne_true] at heq
      rw [heq]
      exact hx
  rw [Value.ofDecimal?, hd, Option.bind_some, ← heq]
  exact if_pos hfinite

/-- A finite double is read back as the settled number. -/
theorem Number.reread?_float {x : Float} (hx : x.isFinite) :
  (float x).reread? = some (settled (float x))
  := by
  obtain ⟨negative, kind, cs, d, hcs, htext, hd, hdenotes⟩ := Decimal.exists_denotes hx
  have hdecimal := ofDecimal?_of_denotes hx hd hdenotes
  rw [reread?_signed (x := .float x) hx hcs htext, settled, htext,
    Integer.ofText?_signed negative hcs.dotted]
  cases kind with
  | integer =>
    rw [Value.ofNumeral?_integer negative hcs, Integer.digits?_integer hcs, Value.ofInteger?,
      hdecimal, Option.map_some, Option.bind_some]
    cases int64? (if negative then -(Nat.ofDigitChars 10 cs 0 : Int)
      else Nat.ofDigitChars 10 cs 0) <;> rfl
  | decimal =>
    rw [Value.ofNumeral?_decimal negative hcs, Integer.digits?_eq_none hcs.not_all_isDigit, hdecimal]
    rfl
  | _ => cases hcs

/-- The 64-bit integer equal to `k` is equal to it. -/
theorem toInt_of_int64? {k : Int} {n : Int64} (h : int64? k = some n) :
  n.toInt = k
  := by
  unfold int64? at h
  split at h
  · rename_i hk
    cases h
    apply Int64.toInt_ofInt_of_le
    · exact hk.1
    · have hmax := hk.2
      change k ≤ 2 ^ 63 - 1 at hmax
      omega
  · cases h

theorem natAbs_signed (negative : Bool) (m : Nat) :
  (if negative then -(m : Int) else m).natAbs = m
  := by
  split <;> omega

/-- The double of an integer is equal to the one with its sign and its magnitude, although one of
them may be a negative zero. -/
theorem Number.compareFloat?_floatOfInt
    {negative : Bool} {m : Nat} {n : Int64} {x : Float}
    (hn : n.toInt = if negative then -(m : Int) else m)
    (hx : (if negative then -m.toUInt64.toFloat else m.toUInt64.toFloat) = x) :
  compareFloat? (floatOfInt n) x = compareFloat? x x
  := by
  have hneg : n < 0 ↔ n.toInt < 0 := Int64.lt_iff_toInt_lt
  rw [floatOfInt, hn, natAbs_signed]
  cases negative with
  | false =>
    have hnonneg : ¬ n < 0 := by
      rw [hneg, hn]
      simp
    rw [if_neg Bool.false_ne_true] at hx
    rw [if_neg hnonneg, hx]
  | true =>
    rw [if_pos rfl] at hx
    by_cases hzero : m = 0
    · have hnonneg : ¬ n < 0 := by
        rw [hneg, hn, hzero]
        simp
      rw [if_neg hnonneg, ← hx, hzero]
      decide
    · have hnegative : n < 0 := by
        rw [hneg, hn, if_pos rfl]
        omega
      rw [if_pos hnegative, hx]

/-- A settled number is equal to the number. -/
theorem Number.settled_compare {x : Float} (hx : x.isFinite) :
  (settled (float x)).compare? (float x) = some .eq
  := by
  obtain ⟨negative, kind, cs, d, hcs, htext, hd, hdenotes⟩ := Decimal.exists_denotes hx
  have hself := compareFloat?_self (Float.isNaN_of_isFinite hx)
  rw [settled]
  split
  · rename_i n hn
    rw [htext, Integer.ofText?_signed negative hcs.dotted] at hn
    cases kind with
    | integer =>
      rw [Integer.digits?_integer hcs, Option.map_some, Option.bind_some] at hn
      have htoInt := toInt_of_int64? hn
      have hword : Nat.ofDigitChars 10 cs 0 < 2 ^ 64 := by
        have hmagnitude : n.toInt.natAbs = Nat.ofDigitChars 10 cs 0 := by
          rw [htoInt, natAbs_signed]
        have hmin := n.le_toInt
        have hmax := n.toInt_lt
        omega
      cases hcs with
      | integer hne hds =>
        rw [Decimal.ofNumeral?_digits hne hds] at hd
        obtain rfl := Option.some.inj hd
        exact (compareFloat?_floatOfInt htoInt (hdenotes.word_eq hword)).trans hself
    | decimal =>
      rw [Integer.digits?_eq_none hcs.not_all_isDigit] at hn
      cases hn
    | _ => cases hcs
  · exact hself

end Dice
