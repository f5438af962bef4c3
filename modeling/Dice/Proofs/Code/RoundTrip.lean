import Dice.Proofs.Code.Reading

/-!
# The round trip of integers

A value whose numbers are integers, whose counts of sides are integers too, and whose dice show
numbers of their faces is read back from its code exactly as it is.
-/

namespace Dice

/-! ### Exact values -/

/-- Whether a number is an integer. -/
def Number.isInt : Number → Bool
  | int _ => true
  | float _ => false

mutual

/-- Whether every number in a value is an integer, every count of sides is one, and every die
shows a number of its faces. -/
def Value.isExact : Value → Bool
  | .number x => x.isInt
  | .list vs => allExact vs
  | .die x f => x.isInt && f.isExact && f.contains x

/-- Whether some faces are exact in the same way. -/
def Faces.isExact : Faces → Bool
  | .upTo n _ => n ≤ Int64.maxValue.toInt
  | .listed v vs => v.isExact && allExact vs

/-- Whether all of some values are exact. -/
def allExact : List Value → Bool
  | [] => true
  | v :: vs => v.isExact && allExact vs

end

/-! ### Integers -/

/-- A 64-bit integer is the one equal to itself. -/
theorem int64?_toInt (n : Int64) :
  int64? n.toInt = some n
  := by
  rw [int64?, if_pos ⟨n.minValue_le_toInt, n.toInt_le⟩, Int64.ofInt_toInt]

theorem ofInteger?_toDigits (negative : Bool) (m : Nat) (n : Int64)
    (h : (if negative then -(m : Int) else m) = n.toInt) :
  Value.ofInteger? negative (Nat.toDigits 10 m) = some (.int n)
  := by
  simp only [Value.ofInteger?, Nat.ofDigitChars_ten_toDigits]
  rw [h, int64?_toInt]

/-- The digits of a magnitude are read as the integer of that magnitude and sign. -/
theorem ofNumeral?_toDigits (negative : Bool) (m : Nat) (n : Int64)
    (h : (if negative then -(m : Int) else m) = n.toInt) :
  Number.ofNumeral? negative (Nat.toDigits 10 m) = some (.int n)
  := by
  rw [Value.ofNumeral?_integer negative (.toDigits m), ofInteger?_toDigits negative m n h]

/-- An integer is read back as it is. -/
theorem Number.reread?_int (n : Int64) :
  (Number.int n).reread? = some (.int n)
  := by
  by_cases hneg : n.toInt < 0
  · have hchars : (Number.int n).chars = '-' :: Nat.toDigits 10 n.toInt.natAbs := by
      rw [chars, Integer.text, if_pos hneg]
    rw [Value.reread?_of_minus rfl hchars]
    apply ofNumeral?_toDigits
    simp only [if_true]
    omega
  · have hchars : (Number.int n).chars = Nat.toDigits 10 n.toInt.natAbs := by
      rw [chars, Integer.text, if_neg hneg]
    have hnumeral : Numeral .integer (Number.int n).chars := by
      rw [hchars]
      apply Numeral.toDigits
    rw [Value.reread?_of_numeral rfl hnumeral, hchars]
    apply ofNumeral?_toDigits
    simp only [Bool.false_eq_true, if_false]
    omega

/-! ### Faces -/

theorem Faces.ofValue?_number {x : Number} {n : Nat} (pos : 0 < n) (h : x.toInt.toInt.toNat = n) :
  ofValue? (.number x) = some (upTo n pos)
  := by
  subst h
  exact dif_pos pos

/-- The integer of a count of sides. -/
theorem toInt_ofNat {n : Nat} (h : n ≤ Int64.maxValue.toInt) :
  (Int64.ofNat n).toInt = n
  := by
  apply Int64.toInt_ofNat_of_lt
  change (n : Int) ≤ 2 ^ 63 - 1 at h
  omega

/-- A count of sides that is an integer stands for itself. -/
theorem Faces.ofValue?_upTo {n : Nat} (pos : 0 < n) (h : n ≤ Int64.maxValue.toInt) :
  ofValue? (upTo n pos).toValue = some (upTo n pos)
  := by
  apply ofValue?_number pos
  rw [Number.toInt, toInt_ofNat h, Int.toNat_natCast]

/-- A count of sides that is an integer is read back as it is. -/
theorem Faces.reread?_upTo {n : Nat} (pos : 0 < n) (h : n ≤ Int64.maxValue.toInt) :
  (upTo n pos).reread? = some (upTo n pos).toValue
  := by
  have hn : (n : Int) = (Int64.ofNat n).toInt := (toInt_ofNat h).symm
  rw [reread?, ofNumeral?_toDigits false n (.ofNat n) hn, toValue]
  rfl

/-- Faces whose count of sides is an integer are those that their value stands for. -/
theorem Faces.ofValue?_toValue {f : Faces} (h : f.isExact) :
  ofValue? f.toValue = some f
  := by
  cases f with
  | listed v vs => rfl
  | upTo n pos => exact ofValue?_upTo pos (of_decide_eq_true h)

/-! ### The round trip -/

mutual

theorem Value.reread?_of_isExact : ∀ (v : Value), v.isExact → v.reread? = some v
  | .number x, h => by
    cases x with
    | int n => rw [Value.reread?, Number.reread?_int, Option.map_some]
    | float x => cases h
  | .list vs, h => by
    rw [Value.reread?, rereadAll?_of_allExact vs h, Option.map_some]
  | .die x f, h => by
    obtain ⟨hxf, hcontains⟩ := Bool.and_eq_true_iff.1 h
    obtain ⟨hx, hf⟩ := Bool.and_eq_true_iff.1 hxf
    cases x with
    | float x => cases hx
    | int n =>
      have hdie : Die.ofValues (.number (.int n)) f.toValue = .ok ⟨.int n, f⟩ := by
        rw [Die.ofValues, Faces.ofValue?_toValue hf]
        exact if_pos hcontains
      rw [Value.reread?, Number.reread?_int, Option.bind_some, Faces.reread?_of_isExact f hf,
        Option.bind_some, hdie]
      rfl

theorem Faces.reread?_of_isExact : ∀ (f : Faces), f.isExact → f.reread? = some f.toValue
  | .upTo n pos, h => Faces.reread?_upTo pos (of_decide_eq_true h)
  | .listed v vs, h => by
    obtain ⟨hv, hvs⟩ := Bool.and_eq_true_iff.1 h
    rw [Faces.reread?, Value.reread?_of_isExact v hv, rereadAll?_of_allExact vs hvs]
    rfl

theorem rereadAll?_of_allExact : ∀ (vs : List Value), allExact vs → rereadAll? vs = some vs
  | [], _ => rfl
  | v :: vs, h => by
    obtain ⟨hv, hvs⟩ := Bool.and_eq_true_iff.1 h
    rw [rereadAll?, Value.reread?_of_isExact v hv, rereadAll?_of_allExact vs hvs]
    rfl

end

/-- An exact value is what its code denotes. -/
theorem Value.ofText_code_of_isExact (v : Value) (h : v.isExact) :
  ofText v.code = .ok v
  := by
  have hcode := ofText_code v
  rw [reread?_of_isExact v h] at hcode
  exact eq_ok_of_toOption hcode

/-- Both ends of the integers, an empty list, and a die whose faces are a die and a list. -/
def Value.nested : Value :=
  .list [.number (.int Int64.minValue), .list [],
    .die (.int Int64.maxValue) (.upTo 9223372036854775807 (by decide)),
    .die (.int (-3)) (.listed (.die (.int 4) (.upTo 6 (by decide)))
      [.list [.number (.int (-5)), .number (.int 2)], .list []])]

theorem Value.ofText_code_nested :
  nested.isExact ∧ ofText nested.code = .ok nested
  := by
  have hexact : nested.isExact := by decide
  exact ⟨hexact, ofText_code_of_isExact nested hexact⟩

end Dice
