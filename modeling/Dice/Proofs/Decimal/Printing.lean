import Dice.Proofs.Decimal.Shortest
import Dice.Proofs.Decimal.Text

/-!
# Printed digits read back

The text of a finite double is a numeral behind its sign, for a decimal to which the double is
nearest. So the double that the text denotes is the double itself.
-/

namespace Dice

/-! ### Numerals as doubles -/

theorem toLower_of_isDigit {c : Char} (h : c.isDigit) :
  c.toLower = c
  := by
  rw [Char.toLower, dif_neg]
  intro hupper
  simp [Char.isDigit] at h
  have hlow := UInt32.le_iff_toNat_le.1 hupper.1
  have hhigh := UInt32.le_iff_toNat_le.1 h.2
  simp at hlow hhigh
  omega

/-- A nonempty run of digits and points. -/
structure Dotted (cs : List Char) : Prop where
  ne_nil : cs ≠ []
  isDigit_or (c : Char) : c ∈ cs → c.isDigit ∨ c = '.'

theorem Numeral.dotted {kind : Token.Kind} {cs : List Char} (h : Numeral kind cs) :
  Dotted cs
  := by
  cases h with
  | integer hne hds => exact ⟨hne, fun c hc => .inl (hds c hc)⟩
  | decimal hne hds hps =>
    refine ⟨List.append_ne_nil_of_left_ne_nil hne _, ?_⟩
    intro c hc
    rcases List.mem_append.1 hc with hc | hc
    · left
      exact hds c hc
    · rcases List.mem_cons.1 hc with rfl | hc
      · right
        rfl
      · left
        exact hps c hc

namespace Dotted

variable {cs : List Char}

theorem exists_cons (h : Dotted cs) :
  ∃ c ds, cs = c :: ds ∧ (c.isDigit ∨ c = '.')
  := by
  obtain ⟨c, ds, rfl⟩ := List.exists_cons_of_ne_nil h.ne_nil
  exact ⟨c, ds, rfl, h.isDigit_or c List.mem_cons_self⟩

/-- Digits and points hold no mark of an exponent. -/
theorem not_mark (h : Dotted cs) :
  ∀ c ∈ cs, (c == 'e' || c == 'E') = false
  := by
  intro c hc
  rw [Bool.or_eq_false_iff]
  constructor
  · apply beq_false_of_ne
    rintro rfl
    rcases h.isDigit_or 'e' hc with h | h <;> cases h
  · apply beq_false_of_ne
    rintro rfl
    rcases h.isDigit_or 'E' hc with h | h <;> cases h

/-- Digits and points spell no word. -/
theorem ne_word (h : Dotted cs) {word : List Char} (hword : Delimiting word) :
  String.ofList (cs.map Char.toLower) ≠ String.ofList word
  := by
  intro heq
  obtain ⟨c, ds, rfl, hc⟩ := h.exists_cons
  have hlower : c.toLower = c := by
    rcases hc with hc | rfl
    · exact toLower_of_isDigit hc
    · rfl
  have hcons := String.ofList_injective heq
  rw [List.map_cons, hlower] at hcons
  subst hcons
  obtain ⟨hdigit, hpoint⟩ := hword c rfl
  rcases hc with hc | hc
  · rw [hdigit] at hc
    cases hc
  · exact hpoint hc

end Dotted

namespace Decimal

/-- Digits and points denote the double nearest to their decimal. -/
theorem unsigned?_dotted {cs : List Char} (h : Dotted cs) :
  unsigned? cs = (ofNumeral? cs).map toFloat
  := by
  have htake : cs.takeWhile (fun c => !(c == 'e' || c == 'E')) = cs := by
    apply List.takeWhile_eq_self_iff.2
    intro c hc
    rw [h.not_mark c hc]
    rfl
  have hdrop : cs.dropWhile (fun c => !(c == 'e' || c == 'E')) = [] := by
    apply List.dropWhile_eq_nil_iff.2
    intro c hc
    rw [h.not_mark c hc]
    rfl
  have hinf := h.ne_word (.cons ['n', 'f'] (c := 'i') rfl (by decide))
  have hinfinity := h.ne_word
    (.cons ['n', 'f', 'i', 'n', 'i', 't', 'y'] (c := 'i') rfl (by decide))
  have hnan := h.ne_word (.cons ['a', 'n'] (c := 'n') rfl (by decide))
  simp only [unsigned?]
  rw [if_neg, if_neg hnan, htake, hdrop]
  · cases ofNumeral? cs <;> rfl
  · rintro (heq | heq)
    · exact hinf heq
    · exact hinfinity heq

end Decimal

/-! ### Signs -/

/-- A numeral with a minus sign where the number is negative. -/
def signed (negative : Bool) (cs : List Char) : List Char :=
  if negative then '-' :: cs else cs

/-- Signed digits and points denote the double nearest to their decimal, with its sign. -/
theorem Decimal.toFloat?_signed (negative : Bool) {cs : List Char} (h : Dotted cs) :
  Decimal.toFloat? (signed negative cs)
    = (Decimal.ofNumeral? cs).map fun d => if negative then -d.toFloat else d.toFloat
  := by
  cases negative with
  | true =>
    rw [signed, if_pos rfl, toFloat?, unsigned?_dotted h, Option.map_map]
    rfl
  | false =>
    have hunsigned : toFloat? cs = unsigned? cs := by
      obtain ⟨c, ds, rfl, hc⟩ := h.exists_cons
      unfold toFloat?
      split
      · rename_i heq
        cases heq
        rcases hc with hc | hc <;> cases hc
      · rename_i heq
        cases heq
        rcases hc with hc | hc <;> cases hc
      · rfl
    rw [signed, if_neg Bool.false_ne_true, hunsigned, unsigned?_dotted h]
    rfl

open Float.Model in
/-- A double is finite exactly when its opposite is. -/
theorem Float.isFinite_neg (x : Float) :
  (-x).isFinite = x.isFinite
  := by
  rw [Bool.eq_iff_iff]
  constructor
  · exact isFinite_of_neg
  · intro hx
    obtain ⟨b, hb⟩ := Option.isSome_iff_exists.1 ((Binary.isSome_ofFloat? x).trans hx)
    by_cases hzero : b.significand = 0
    · rw [Binary.eq_zero hb hzero]
      cases b.negative <;> decide
    · obtain ⟨hd, heq⟩ := Binary.exists_isDouble hb hzero
      rw [heq, neg_ofModel hd]
      change (UnpackedFloat.unpack .binary64 (UnpackedFloat.pack .binary64 _)).isFinite = true
      rw [hd.unpack_pack]
      rfl

/-! ### Doubles and decimals -/

namespace Decimal

open Float.Model Float.Model.UnpackedFloat

/-- A decimal with a sign denotes a double: a zero, or the double nearest to it. -/
inductive Denotes (negative : Bool) : Decimal → Float → Prop
  | zero : Denotes negative ⟨0, 0⟩ (.ofModel (.pack (.zero (signOf negative))))
  | nearest {d : Decimal} {m : Nat} {q : Int} (hd : IsDouble m q) :
    Nearest d.value m q →
      Denotes negative d (.ofModel (.pack (.finite (signOf negative) m q hd.pos)))

variable {negative : Bool} {d : Decimal} {x : Float}

/-- A double of a decimal that is not negative, with a sign. -/
theorem signed_ofModel {m : Nat} {q : Int} (negative : Bool) (hd : IsDouble m q) :
  (if negative then -Float.ofModel (.pack (.finite .positive m q hd.pos))
    else .ofModel (.pack (.finite .positive m q hd.pos)))
    = .ofModel (.pack (.finite (signOf negative) m q hd.pos))
  := by
  cases negative with
  | true => exact neg_ofModel hd .positive
  | false => rfl

/-- A decimal is converted to the double that it denotes. -/
theorem Denotes.toFloat_eq (h : Denotes negative d x) :
  (if negative then -d.toFloat else d.toFloat) = x
  := by
  cases h with
  | zero => cases negative <;> decide
  | nearest hd h => rw [toFloat_of_nearest h hd, signed_ofModel negative hd]

/-- A word is converted to the double that it denotes as a decimal. -/
theorem Denotes.word_eq {n : Nat} (h : Denotes negative ⟨n, 0⟩ x) (hn : n < 2 ^ 64) :
  (if negative then -n.toUInt64.toFloat else n.toUInt64.toFloat) = x
  := by
  generalize hd : (⟨n, 0⟩ : Decimal) = d at h
  cases h with
  | zero =>
    cases hd
    cases negative <;> decide
  | nearest hdouble h =>
    subst hd
    have hpos : 0 < n := h.digits_pos hdouble
    have hvalue : value ⟨n, 0⟩ = n := by
      rw [value, zpow_zero, mul_one]
    rw [hvalue] at h
    rw [h.toFloat hdouble hpos hn, signed_ofModel negative hdouble]

/-- The text of a finite double is a signed numeral of a decimal that denotes the double. -/
theorem exists_denotes (hx : x.isFinite) :
  ∃ negative kind cs d, Numeral kind cs ∧ ofFloat x = signed negative cs
    ∧ ofNumeral? cs = some d ∧ Denotes negative d x
  := by
  obtain ⟨b, hb⟩ := Option.isSome_iff_exists.1 ((Binary.isSome_ofFloat? x).trans hx)
  by_cases hzero : b.significand = 0
  · refine ⟨b.negative, .integer, ['0'], ⟨0, 0⟩, .toDigits 0, ?_, rfl, ?_⟩
    · simp only [ofFloat, Float.isNaN_of_isFinite hx, hb, hzero, Bool.false_eq_true, if_false,
        if_true]
      rfl
    · rw [Binary.eq_zero hb hzero]
      exact .zero
  · obtain ⟨kind, hnumeral⟩ := numeral_text (shortest b.significand b.exponent)
    obtain ⟨d, hd, hvalue⟩ := ofNumeral?_text (shortest b.significand b.exponent)
    refine ⟨b.negative, kind, _, d, hnumeral, ?_, hd, ?_⟩
    · simp only [ofFloat, Float.isNaN_of_isFinite hx, hb, hzero, Bool.false_eq_true, if_false]
      rfl
    · obtain ⟨hdouble, heq⟩ := Binary.exists_isDouble hb hzero
      rw [heq]
      refine .nearest hdouble ?_
      rw [hvalue]
      exact nearest_shortest hdouble

/-- The text of a finite double denotes the double. -/
theorem toFloat?_ofFloat (hx : x.isFinite) :
  toFloat? (ofFloat x) = some x
  := by
  obtain ⟨negative, kind, cs, d, hcs, htext, hd, hdenotes⟩ := exists_denotes hx
  rw [htext, toFloat?_signed negative hcs.dotted, hd, Option.map_some, hdenotes.toFloat_eq]

end Decimal

end Dice
