import Dice.Proofs.Code.Settling

/-!
# Literals

The text of a numeral token is a literal: a nonempty run of digits, or digits around a point. With
its sign, a literal denotes the 64-bit integer that it spells, and where it spells none a finite
double. The reader makes this number of the token.
-/

namespace Dice

/-- The number that a signed literal denotes: the 64-bit integer that it spells, or else the double
nearest to it, which has to be finite. -/
def Number.ofLiteral? (cs : List Char) : Option Number :=
  match (Integer.ofText? cs).bind int64? with
  | some n => some (.int n)
  | none => ((Decimal.toFloat? cs).filter Float.isFinite).map .float

/-- The kinds of numeral tokens. -/
def Token.Kind.IsNumeral (kind : Token.Kind) : Prop :=
  kind = .integer ∨ kind = .decimal

/-- The texts of numeral tokens. Digits stand on at least one side of a point. -/
inductive Literal : Token.Kind → List Char → Prop
  | numeral {kind : Token.Kind} {cs : List Char} : Numeral kind cs → Literal kind cs
  | fraction {ps : List Char} : ps ≠ [] → (∀ c ∈ ps, c.isDigit) → Literal .decimal ('.' :: ps)

namespace Literal

theorem dotted {kind : Token.Kind} {cs : List Char} (h : Literal kind cs) :
  Dotted cs
  := by
  cases h with
  | numeral h => exact h.dotted
  | @fraction ps hne hps =>
    refine ⟨List.cons_ne_nil '.' ps, ?_⟩
    intro c hc
    rcases List.mem_cons.1 hc with rfl | hc
    · right
      rfl
    · left
      exact hps c hc

theorem integer {cs : List Char} (h : Literal .integer cs) :
  Numeral .integer cs
  := by
  cases h with
  | numeral h => exact h

theorem not_all_isDigit {cs : List Char} (h : Literal .decimal cs) :
  cs.all Char.isDigit = false
  := by
  cases h with
  | numeral h => exact h.not_all_isDigit
  | fraction hne hps => rfl

end Literal

/-! ### The numbers of literals -/

/-- A literal is read as the double that it denotes with its sign, which has to be finite. -/
theorem Value.ofDecimal?_eq (negative : Bool) {cs : List Char} (h : Dotted cs) :
  ofDecimal? negative cs
    = ((Decimal.toFloat? (signed negative cs)).filter Float.isFinite).map .float
  := by
  rw [Decimal.toFloat?_signed negative h, ofDecimal?]
  cases Decimal.ofNumeral? cs with
  | none => rfl
  | some d =>
    have hfinite : (if negative then -d.toFloat else d.toFloat).isFinite = d.toFloat.isFinite := by
      cases negative with
      | true => apply Float.isFinite_neg
      | false => rfl
    simp only [Option.bind_some, Option.map_some, Option.filter_some, hfinite]
    split <;> rfl

/-- An integer literal denotes a 64-bit integer where the integer that it spells fits. -/
theorem Number.ofLiteral?_integer (negative : Bool) {cs : List Char} (h : Literal .integer cs) :
  ofLiteral? (signed negative cs) = Value.ofInteger? negative cs
  := by
  have htext := Integer.ofText?_signed negative h.dotted
  rw [Integer.digits?_integer h.integer, Option.map_some] at htext
  cases hn : int64? (if negative then -(Nat.ofDigitChars 10 cs 0 : Int)
      else Nat.ofDigitChars 10 cs 0) with
  | some n => simp only [ofLiteral?, htext, Option.bind_some, Value.ofInteger?, hn]
  | none =>
    simp only [ofLiteral?, htext, Option.bind_some, Value.ofInteger?, hn,
      Value.ofDecimal?_eq negative h.dotted]

/-- A decimal literal denotes a double. -/
theorem Number.ofLiteral?_decimal (negative : Bool) {cs : List Char} (h : Literal .decimal cs) :
  ofLiteral? (signed negative cs) = Value.ofDecimal? negative cs
  := by
  rw [ofLiteral?, Integer.ofText?_signed negative h.dotted,
    Integer.digits?_eq_none h.not_all_isDigit, Value.ofDecimal?_eq negative h.dotted]
  rfl

/-- An integer token that is a 64-bit integer with its sign. -/
def Token.IsInt64 (t : Token) (negative : Bool) (n : Int64) : Prop :=
  t.kind = .integer
    ∧ n.toInt = if negative then -(Nat.ofDigitChars 10 t.chars 0 : Int)
      else Nat.ofDigitChars 10 t.chars 0

namespace Number

variable {t : Token} {negative : Bool}

/-- A 64-bit integer is denoted by its digits, of which any number of zeros may come first. -/
theorem ofLiteral?_of_isInt64 (h : Literal t.kind t.chars) {n : Int64} (hn : t.IsInt64 negative n) :
  ofLiteral? (signed negative t.chars) = some (.int n)
  := by
  obtain ⟨hkind, hn⟩ := hn
  rw [hkind] at h
  rw [ofLiteral?_integer negative h, Value.ofInteger?, ← hn, int64?_toInt]

/-- Any other numeral denotes a double. -/
theorem ofLiteral?_of_not_isInt64
    (h : Literal t.kind t.chars) (ht : t.kind.IsNumeral) (hn : ¬ ∃ n, t.IsInt64 negative n) :
  ofLiteral? (signed negative t.chars)
    = ((Decimal.toFloat? (signed negative t.chars)).filter Float.isFinite).map .float
  := by
  rw [← Value.ofDecimal?_eq negative h.dotted]
  rcases ht with ht | ht
  · rw [ht] at h
    rw [ofLiteral?_integer negative h, Value.ofInteger?]
    split
    · rename_i n hint64
      exact absurd ⟨n, ht, toInt_of_int64? hint64⟩ hn
    · rfl
  · rw [ht] at h
    exact ofLiteral?_decimal negative h

end Number

/-! ### Literals as tokens -/

namespace Token

theorem take_takeWhile (p : Char → Bool) (cs : List Char) :
  cs.take (cs.takeWhile p).length = cs.takeWhile p
  := (List.prefix_iff_eq_take.1 (List.takeWhile_prefix p)).symm

/-- The longest token at the head of a text is a literal if it is a numeral. -/
theorem longest_literal (c : Char) (cs : List Char) (h : (longest c cs).1.IsNumeral) :
  Literal (longest c cs).1 (c :: cs.take (longest c cs).2)
  := by
  have hdigits : ∀ ds : List Char, ∀ d ∈ ds.takeWhile Char.isDigit, d.isDigit :=
    fun ds d hd => List.mem_takeWhile_imp hd
  revert h
  unfold longest
  split
  · rename_i hc
    have hwhole : ∀ d ∈ c :: cs.takeWhile Char.isDigit, d.isDigit := by
      intro d hd
      rcases List.mem_cons.1 hd with rfl | hd
      · exact hc
      · exact hdigits cs d hd
    simp only []
    split
    · rename_i rest hrest
      intro _
      have hcs : cs = cs.takeWhile Char.isDigit ++ '.' :: rest := by
        rw [← hrest, List.takeWhile_append_dropWhile]
      have htake : cs.take ((cs.takeWhile Char.isDigit).length + 1
            + (rest.takeWhile Char.isDigit).length)
          = cs.takeWhile Char.isDigit ++ '.' :: rest.takeWhile Char.isDigit := by
        apply (congrArg (List.take _) hcs).trans
        rw [Nat.add_assoc, List.take_length_add_append, Nat.add_comm 1, List.take_succ_cons,
          take_takeWhile]
      simp only [htake]
      exact .numeral (.decimal (List.cons_ne_nil c _) hwhole (hdigits rest))
    · intro _
      simp only [take_takeWhile]
      exact .numeral (.integer (List.cons_ne_nil c _) hwhole)
  · split
    · rename_i hpoint
      obtain rfl := beq_iff_eq.1 hpoint
      split
      · rintro (h | h) <;> cases h
      · rename_i hne
        intro _
        simp only [take_takeWhile]
        exact .fraction hne (hdigits cs)
    · split
      · split <;> rintro (h | h) <;> cases h
      · unfold punctuation?
        split <;> rintro (h | h) <;> cases h

/-- A token whose text is a literal if it is a numeral. -/
def Spelled (t : Token) : Prop :=
  t.kind.IsNumeral → Literal t.kind t.chars

theorem spelled_of_mem_scan {start skip : Nat} {cs : List Char} {t : Token}
    (ht : t ∈ scan start skip cs) :
  t.Spelled
  := by
  induction cs generalizing start skip with
  | nil => cases skip <;> cases ht
  | cons c cs ih =>
    cases skip with
    | succ skip => exact ih ht
    | zero =>
      rw [scan] at ht
      split at ht
      · exact ih ht
      · rcases List.mem_cons.1 ht with rfl | ht
        · apply longest_literal
        · exact ih ht

/-- The numerals of a text are literals. -/
theorem spelled_of_mem {cs : List Char} {t : Token} (ht : t ∈ ofText cs) :
  t.Spelled
  := spelled_of_mem_scan ht

end Token

end Dice
