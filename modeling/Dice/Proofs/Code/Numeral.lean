import Dice.Proofs.Float.Finite
import Dice.Value.Code
import Dice.Value.Token

/-!
# Numerals

The text of a number is a numeral, behind a minus sign where the number is negative: a run of
digits, or two around a point. Before anything but a digit or a point, a numeral is cut off as a
token of its own.
-/

namespace Dice

/-- A run of digits is a numeral for an integer, and two around a point are one for a decimal. -/
inductive Numeral : Token.Kind → List Char → Prop
  | integer {ds : List Char} : ds ≠ [] → (∀ c ∈ ds, c.isDigit) → Numeral .integer ds
  | decimal {ds ps : List Char} : ds ≠ [] → (∀ c ∈ ds, c.isDigit) → (∀ c ∈ ps, c.isDigit) →
      Numeral .decimal (ds ++ '.' :: ps)

/-- The numeral for an integer holds digits only. -/
theorem Numeral.all_isDigit {cs : List Char} (h : Numeral .integer cs) :
  cs.all Char.isDigit = true
  := by
  cases h with
  | integer hne hds => exact List.all_eq_true.2 hds

/-- The numeral for a decimal holds a point. -/
theorem Numeral.not_all_isDigit {cs : List Char} (h : Numeral .decimal cs) :
  cs.all Char.isDigit = false
  := by
  cases h with
  | @decimal ds ps hne hds hps =>
    rw [List.all_eq_false]
    exact ⟨'.', List.mem_append_right ds List.mem_cons_self, Bool.false_ne_true⟩

/-- A text that does not go on a numeral before it. -/
def Delimiting (rest : List Char) : Prop :=
  ∀ c ∈ rest.head?, c.isDigit = false ∧ c ≠ '.'

theorem Delimiting.nil :
  Delimiting []
  := by
  intro c hc
  cases hc

theorem Delimiting.cons {c : Char} (rest : List Char) (hdigit : c.isDigit = false)
    (hpoint : c ≠ '.') :
  Delimiting (c :: rest)
  := by
  intro d hd
  cases hd
  exact ⟨hdigit, hpoint⟩

/-! ### Lengths in bytes -/

@[simp]
theorem byteLength_nil :
  byteLength [] = 0
  := rfl

@[simp]
theorem byteLength_cons (c : Char) (cs : List Char) :
  byteLength (c :: cs) = c.utf8Size + byteLength cs
  := rfl

@[simp]
theorem byteLength_append (cs ds : List Char) :
  byteLength (cs ++ ds) = byteLength cs + byteLength ds
  := by
  induction cs with
  | nil => rw [List.nil_append, byteLength_nil, Nat.zero_add]
  | cons c cs ih => rw [List.cons_append, byteLength_cons, byteLength_cons, ih, Nat.add_assoc]

/-! ### Runs of digits -/

section

variable {ds rest : List Char} (hds : ∀ c ∈ ds, c.isDigit)

include hds

/-- The digits at the head of a text, before anything but a digit. -/
theorem takeWhile_digits (hrest : ∀ c ∈ rest.head?, c.isDigit = false) :
  (ds ++ rest).takeWhile Char.isDigit = ds
  := by
  rw [List.takeWhile_append_of_pos hds]
  cases rest with
  | nil => simp
  | cons c rest => simp [hrest c rfl]

theorem dropWhile_digits (hrest : ∀ c ∈ rest.head?, c.isDigit = false) :
  (ds ++ rest).dropWhile Char.isDigit = rest
  := by
  rw [List.dropWhile_append_of_pos hds]
  cases rest with
  | nil => rfl
  | cons c rest => simp [hrest c rfl]

end

theorem Delimiting.not_digit {rest : List Char} (h : Delimiting rest) :
  ∀ c ∈ rest.head?, c.isDigit = false
  := fun c hc => (h c hc).1

/-- A digit is no blank. -/
theorem Token.isBlank_of_isDigit {c : Char} (h : c.isDigit) :
  Token.isBlank c = false
  := by
  have hne : ∀ d : Char, d.isDigit = false → (c == d) = false := by
    intro d hd
    apply beq_false_of_ne
    rintro rfl
    rw [hd] at h
    cases h
  rw [Token.isBlank, hne ' ' rfl, hne '\t' rfl, hne '\r' rfl, hne '\n' rfl]
  rfl

/-! ### Numerals as tokens -/

namespace Token

/-- What belongs to a token that is already found is passed over. -/
theorem scan_length (start : Nat) (cs rest : List Char) :
  scan start cs.length (cs ++ rest) = scan (start + byteLength cs) 0 rest
  := by
  induction cs generalizing start with
  | nil => rfl
  | cons c cs ih =>
    rw [List.length_cons, List.cons_append, scan, ih, byteLength_cons, Nat.add_assoc]

/-- The token that is longest at the head of a text is cut off. -/
theorem scan_longest
    {c : Char} {cs rest : List Char} {kind : Kind} (start : Nat) (hblank : isBlank c = false)
    (h : longest c (cs ++ rest) = (kind, cs.length)) :
  scan start 0 (c :: cs ++ rest)
    = ⟨kind, c :: cs, start⟩ :: scan (start + byteLength (c :: cs)) 0 rest
  := by
  rw [List.cons_append, scan]
  simp only [hblank, Bool.false_eq_true, if_false, h, scan_length, List.take_left',
    byteLength_cons, Nat.add_assoc]

theorem longest_integer
    {c : Char} {ds rest : List Char} (hc : c.isDigit) (hds : ∀ c ∈ ds, c.isDigit)
    (hrest : Delimiting rest) :
  longest c (ds ++ rest) = (.integer, ds.length)
  := by
  unfold longest
  simp only [hc, if_true, takeWhile_digits hds hrest.not_digit,
    dropWhile_digits hds hrest.not_digit]
  cases rest with
  | nil => rfl
  | cons d rest =>
    split
    · rename_i heq
      cases heq
      exact absurd rfl (hrest '.' rfl).2
    · rfl

theorem longest_decimal
    {c : Char} {ds ps rest : List Char} (hc : c.isDigit) (hds : ∀ c ∈ ds, c.isDigit)
    (hps : ∀ c ∈ ps, c.isDigit) (hrest : ∀ c ∈ rest.head?, c.isDigit = false) :
  longest c ((ds ++ '.' :: ps) ++ rest) = (.decimal, (ds ++ '.' :: ps).length)
  := by
  have hpoint : ∀ c ∈ ('.' :: (ps ++ rest)).head?, c.isDigit = false := by
    intro c hc
    cases hc
    rfl
  unfold longest
  simp only [List.append_assoc, List.cons_append, hc, if_true, takeWhile_digits hds hpoint,
    dropWhile_digits hds hpoint, takeWhile_digits hps hrest, List.length_append,
    List.length_cons]
  congr 1
  omega

/-- A numeral is a token before what delimits it. -/
theorem scan_numeral
    {kind : Kind} {cs rest : List Char} (h : Numeral kind cs) (start : Nat)
    (hrest : Delimiting rest) :
  scan start 0 (cs ++ rest) = ⟨kind, cs, start⟩ :: scan (start + byteLength cs) 0 rest
  := by
  cases h with
  | @integer ds hne hds =>
    obtain ⟨c, ds, rfl⟩ := List.exists_cons_of_ne_nil hne
    have hc : c.isDigit := hds c List.mem_cons_self
    apply scan_longest start (isBlank_of_isDigit hc)
    exact longest_integer hc (fun d hd => hds d (List.mem_cons_of_mem c hd)) hrest
  | @decimal ds ps hne hds hps =>
    obtain ⟨c, ds, rfl⟩ := List.exists_cons_of_ne_nil hne
    have hc : c.isDigit := hds c List.mem_cons_self
    rw [List.cons_append]
    apply scan_longest start (isBlank_of_isDigit hc)
    exact longest_decimal hc (fun d hd => hds d (List.mem_cons_of_mem c hd)) hps hrest.not_digit

end Token

/-- A character that no longer token begins with is a token of its own. -/
theorem Token.scan_mark
    {c : Char} {kind : Token.Kind} (start : Nat) (rest : List Char) (hblank : isBlank c = false)
    (h : longest c rest = (kind, 0)) :
  scan start 0 (c :: rest) = ⟨kind, [c], start⟩ :: scan (start + c.utf8Size) 0 rest
  := @scan_longest c [] rest kind start hblank h

/-- The word is a token. -/
theorem Token.scan_die (start : Nat) (rest : List Char) :
  scan start 0 ('!' :: 'd' :: 'i' :: 'e' :: rest)
    = ⟨.die, ['!', 'd', 'i', 'e'], start⟩
        :: scan (start + byteLength ['!', 'd', 'i', 'e']) 0 rest
  := rfl

/-! ### The text of numbers -/

/-- The digits of a natural number are a numeral. -/
theorem Numeral.toDigits (n : Nat) :
  Numeral .integer (Nat.toDigits 10 n)
  := .integer Nat.toDigits_ne_nil fun _ hc =>
    Nat.isDigit_of_mem_toDigits (by decide) (by decide) hc

theorem Numeral.exists_cons {kind : Token.Kind} {cs : List Char} (h : Numeral kind cs) :
  ∃ c ds, cs = c :: ds ∧ c.isDigit
  := by
  cases h with
  | @integer ds hne hds =>
    obtain ⟨c, ds, rfl⟩ := List.exists_cons_of_ne_nil hne
    exact ⟨c, ds, rfl, hds c List.mem_cons_self⟩
  | @decimal ds ps hne hds hps =>
    obtain ⟨c, ds, rfl⟩ := List.exists_cons_of_ne_nil hne
    exact ⟨c, _, rfl, hds c List.mem_cons_self⟩

namespace Decimal

theorem isDigit_of_mem_fraction {n places : Nat} {c : Char} (h : c ∈ fraction n places) :
  c.isDigit
  := by
  have hmem := (List.dropWhile_sublist _).mem (List.mem_reverse.1 h)
  rw [List.mem_reverse, List.mem_append] at hmem
  rcases hmem with hzero | hdigit
  · rw [(List.mem_replicate.1 hzero).2]
    rfl
  · exact Nat.isDigit_of_mem_toDigits (by decide) (by decide) hdigit

/-- The text of a decimal is a numeral. -/
theorem numeral_text (d : Decimal) :
  ∃ kind, Numeral kind d.text
  := by
  unfold text
  split
  · exact ⟨_, .toDigits _⟩
  · rename_i k _
    simp only []
    split
    · exact ⟨_, .toDigits _⟩
    · rename_i ds hds
      refine ⟨_, .decimal Nat.toDigits_ne_nil ?_ ?_⟩
      · intro c hc
        exact Nat.isDigit_of_mem_toDigits (by decide) (by decide) hc
      · intro c hc
        exact isDigit_of_mem_fraction hc

end Decimal

namespace Number

/-- Whether the number is not an infinity or a NaN. -/
def isFinite : Number → Bool
  | int _ => true
  | float x => x.isFinite

/-- The text of a finite number is a numeral, perhaps behind a minus sign. -/
theorem chars_of_isFinite {x : Number} (h : x.isFinite) :
  ∃ kind cs, Numeral kind cs ∧ (x.chars = cs ∨ x.chars = '-' :: cs)
  := by
  cases x with
  | int n =>
    refine ⟨_, _, .toDigits n.toInt.natAbs, ?_⟩
    simp only [chars, Integer.text]
    split
    · right
      rfl
    · left
      rfl
  | float x =>
    have hx : x.isFinite = true := h
    obtain ⟨b, hb⟩ := Option.isSome_iff_exists.1 ((Binary.isSome_ofFloat? x).trans hx)
    simp only [chars, Decimal.ofFloat, Float.isNaN_of_isFinite hx, hb, Bool.false_eq_true, if_false]
    have hdigits : ∃ kind, Numeral kind
        (if b.significand = 0 then ['0'] else (Decimal.shortest b.significand b.exponent).text) := by
      split
      · exact ⟨_, .toDigits 0⟩
      · apply Decimal.numeral_text
    obtain ⟨kind, hnumeral⟩ := hdigits
    refine ⟨kind, _, hnumeral, ?_⟩
    split
    · right
      rfl
    · left
      rfl

/-- The text of an infinity or a NaN. -/
theorem chars_of_not_isFinite {x : Number} (h : x.isFinite = false) :
  x.chars = ['N', 'a', 'N'] ∨ x.chars = ['i', 'n', 'f'] ∨ x.chars = ['-', 'i', 'n', 'f']
  := by
  cases x with
  | int n => cases h
  | float x =>
    have hx : x.isFinite = false := h
    have hnone : Binary.ofFloat? x = none := by
      rw [← Option.not_isSome_iff_eq_none, Binary.isSome_ofFloat?, hx]
      exact Bool.false_ne_true
    simp only [chars, Decimal.ofFloat, hnone]
    split
    · left
      rfl
    · split
      · right
        right
        rfl
      · right
        left
        rfl

end Number

end Dice
