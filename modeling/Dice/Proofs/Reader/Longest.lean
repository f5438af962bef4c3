import Dice.Proofs.Reader.Literal
import Dice.Proofs.Reader.Spacing

/-!
# Longest tokens

Each kind of tokens has its pattern. The token at the head of a text is the longest that any pattern
knows, or a single character where no pattern knows one. This leaves no choice: the text alone
decides where the token ends and of which kind it is. A numeral ends at what cannot go on it.
-/

namespace Dice

/-! ### Literals -/

namespace Literal

variable {kind : Token.Kind} {cs : List Char}

theorem isNumeral (h : Literal kind cs) :
  kind.IsNumeral
  := by
  cases h with
  | numeral h =>
    cases h with
    | integer => exact .inl rfl
    | decimal => exact .inr rfl
  | fraction => exact .inr rfl

/-- A literal for a decimal has one point, and one for an integer has none. -/
theorem count_point (h : Literal kind cs) :
  cs.count '.' = if kind = .decimal then 1 else 0
  := by
  have hdigits : ∀ {ds : List Char}, (∀ c ∈ ds, c.isDigit) → ds.count '.' = 0 := by
    intro ds hds
    apply List.count_eq_zero.2
    intro hmem
    exact Bool.false_ne_true (hds '.' hmem)
  cases h with
  | numeral h =>
    cases h with
    | integer hne hds => exact hdigits hds
    | decimal hne hds hps =>
      rw [List.count_append, List.count_cons_self, hdigits hds, hdigits hps]
      rfl
  | fraction hne hps =>
    rw [List.count_cons_self, hdigits hps]
    rfl

theorem unique {kind' : Token.Kind} (h : Literal kind cs) (h' : Literal kind' cs) :
  kind = kind'
  := by
  have hcount := h.count_point.symm.trans h'.count_point
  rcases h.isNumeral with rfl | rfl <;> rcases h'.isNumeral with rfl | rfl
  · rfl
  · cases hcount
  · cases hcount
  · rfl

/-- A digit goes on any literal. -/
theorem concat_digit (h : Literal kind cs) {d : Char} (hd : d.isDigit) :
  Literal kind (cs ++ [d])
  := by
  have hconcat : ∀ {ds : List Char}, (∀ c ∈ ds, c.isDigit) → ∀ c ∈ ds ++ [d], c.isDigit := by
    intro ds hds
    exact List.forall_mem_append.2 ⟨hds, List.forall_mem_singleton.2 hd⟩
  cases h with
  | numeral h =>
    cases h with
    | integer hne hds => exact .numeral (.integer (List.append_ne_nil_of_left_ne_nil hne [d])
        (hconcat hds))
    | decimal hne hds hps =>
      rw [List.append_assoc]
      exact .numeral (.decimal hne hds (hconcat hps))
  | fraction hne hps => exact .fraction (List.append_ne_nil_of_left_ne_nil hne [d]) (hconcat hps)

/-- A point makes a literal for a decimal of one for an integer. -/
theorem concat_point (h : Literal .integer cs) :
  Literal .decimal (cs ++ ['.'])
  := by
  cases h.integer with
  | integer hne hds => exact .numeral (.decimal hne hds (List.forall_mem_nil _))

/-- Digits come behind a point that begins a literal. -/
theorem fraction_of_point (h : Literal kind ('.' :: cs)) :
  cs ≠ [] ∧ ∀ c ∈ cs, c.isDigit
  := by
  generalize htext : '.' :: cs = text at h
  cases h with
  | fraction hne hps =>
    cases htext
    exact ⟨hne, hps⟩
  | numeral h =>
    exfalso
    obtain ⟨c, ds, rfl, hc⟩ := h.exists_cons
    cases htext
    exact Bool.false_ne_true hc

end Literal

namespace Token

/-! ### Patterns -/

theorem punctuation?_of_numeric {c : Char} (hc : c.isDigit ∨ c = '.') :
  punctuation? c = none ∧ c ≠ '!'
  := by
  constructor
  · unfold punctuation?
    split <;> first | rfl | (exfalso; revert hc; decide)
  · rintro rfl
    revert hc
    decide

/-- The texts that a kind of tokens is made for. -/
inductive Pattern : Kind → List Char → Prop
  | literal {kind : Kind} {cs : List Char} : Literal kind cs → Pattern kind cs
  | mark {kind : Kind} {c : Char} : punctuation? c = some kind → Pattern kind [c]
  | word : Pattern .die ['!', 'd', 'i', 'e']

namespace Pattern

variable {kind : Kind} {c : Char} {cs : List Char}

theorem ne_nil (h : Pattern kind cs) :
  cs ≠ []
  := by
  cases h with
  | literal h => exact h.dotted.1
  | mark => exact List.cons_ne_nil _ _
  | word => exact List.cons_ne_nil _ _

/-- The first character of a text decides which pattern it may have. -/
theorem cases_cons (h : Pattern kind (c :: cs)) :
  (c.isDigit ∨ c = '.') ∧ Literal kind (c :: cs)
    ∨ punctuation? c = some kind ∧ cs = []
    ∨ c = '!' ∧ kind = .die ∧ cs = ['d', 'i', 'e']
  := by
  cases h with
  | literal h => exact .inl ⟨h.dotted.2 c List.mem_cons_self, h⟩
  | mark h => exact .inr (.inl ⟨h, rfl⟩)
  | word => exact .inr (.inr ⟨rfl, rfl, rfl⟩)

theorem literal_of_numeric (hc : c.isDigit ∨ c = '.') (h : Pattern kind (c :: cs)) :
  Literal kind (c :: cs)
  := by
  obtain ⟨hmark, hword⟩ := punctuation?_of_numeric hc
  rcases h.cases_cons with ⟨-, h⟩ | ⟨h, -⟩ | ⟨h, -⟩
  · exact h
  · rw [hmark] at h
    cases h
  · exact absurd h hword

/-- A pattern that begins with a literal is one of literals. -/
theorem literal_of_append {kind' : Kind} {more : List Char} (h : Literal kind cs)
    (h' : Pattern kind' (cs ++ more)) :
  Literal kind' (cs ++ more)
  := by
  obtain ⟨hne, hcs⟩ := h.dotted
  obtain ⟨c, cs, rfl⟩ := List.exists_cons_of_ne_nil hne
  exact literal_of_numeric (hcs c List.mem_cons_self) h'

theorem word_of_mark (h : Pattern kind ('!' :: cs)) :
  kind = .die ∧ cs = ['d', 'i', 'e']
  := by
  rcases h.cases_cons with ⟨h, -⟩ | ⟨h, -⟩ | ⟨-, h⟩
  · exact absurd rfl (punctuation?_of_numeric h).2
  · cases h
  · exact h

theorem mark_of_not_numeric (hc : ¬ (c.isDigit ∨ c = '.')) (hword : c ≠ '!')
    (h : Pattern kind (c :: cs)) :
  punctuation? c = some kind ∧ cs = []
  := by
  rcases h.cases_cons with ⟨h, -⟩ | h | ⟨h, -⟩
  · exact absurd h hc
  · exact h
  · exact absurd h hword

/-- No text has the patterns of two kinds. -/
theorem unique {kind' : Kind} (h : Pattern kind cs) (h' : Pattern kind' cs) :
  kind = kind'
  := by
  obtain ⟨c, cs, rfl⟩ := List.exists_cons_of_ne_nil h.ne_nil
  by_cases hc : c.isDigit ∨ c = '.'
  · exact (h.literal_of_numeric hc).unique (h'.literal_of_numeric hc)
  · by_cases hword : c = '!'
    · subst hword
      exact h.word_of_mark.1.trans h'.word_of_mark.1.symm
    · have hkind := (h.mark_of_not_numeric hc hword).1.symm.trans
        (h'.mark_of_not_numeric hc hword).1
      exact Option.some.inj hkind

end Pattern

/-! ### The longest token -/

/-- Some characters are the token of a kind at the head of a text, with the rest of the text behind
them: no more of it has a pattern, or they are one character and nothing at the head of the text has
a pattern. -/
inductive Longest : Kind → List Char → (rest : List Char) → Prop
  | pattern {kind : Kind} {cs rest : List Char} : Pattern kind cs →
      (∀ kind' more, more ≠ [] → more <+: rest → ¬ Pattern kind' (cs ++ more)) →
      Longest kind cs rest
  | stray {c : Char} {rest : List Char} :
      (∀ kind front, front <+: c :: rest → ¬ Pattern kind front) → Longest .stray [c] rest

namespace Longest

variable {kind : Kind} {cs rest : List Char}

theorem ne_nil (h : Longest kind cs rest) :
  cs ≠ []
  := by
  cases h with
  | pattern h _ => exact h.ne_nil
  | stray => exact List.cons_ne_nil _ _

/-- A character is stray if no pattern begins with it here. -/
theorem of_none {c : Char} (h : ∀ kind front, front <+: rest → ¬ Pattern kind (c :: front)) :
  Longest .stray [c] rest
  := by
  apply Longest.stray
  intro kind front hfront hpattern
  obtain ⟨d, front, rfl⟩ := List.exists_cons_of_ne_nil hpattern.ne_nil
  obtain ⟨rfl, hbehind⟩ := List.cons_prefix_cons.1 hfront
  exact h kind front hbehind hpattern

/-- A text has one longest token at its head. -/
theorem unique {kind' : Kind} {cs' rest' : List Char} (h : Longest kind cs rest)
    (h' : Longest kind' cs' rest') (htext : cs ++ rest = cs' ++ rest') :
  kind = kind' ∧ cs = cs' ∧ rest = rest'
  := by
  cases h with
  | pattern h hmax =>
    cases h' with
    | pattern h' hmax' =>
      have hsame : cs = cs' ∧ rest = rest' := by
        rcases List.append_eq_append_iff.1 htext with ⟨more, rfl, rfl⟩ | ⟨more, rfl, rfl⟩
        · have hmore : more = [] := by
            by_contra hne
            exact hmax _ more hne (List.prefix_append more rest') h'
          simp [hmore]
        · have hmore : more = [] := by
            by_contra hne
            exact hmax' _ more hne (List.prefix_append more rest) h
          simp [hmore]
      obtain ⟨rfl, rfl⟩ := hsame
      exact ⟨h.unique h', rfl, rfl⟩
    | stray hnone => exact absurd h (hnone kind cs ⟨rest, htext⟩)
  | stray hnone =>
    cases h' with
    | pattern h' _ => exact absurd h' (hnone kind' cs' ⟨rest', htext.symm⟩)
    | stray =>
      obtain ⟨rfl, rfl⟩ := List.cons.inj htext
      exact ⟨rfl, rfl, rfl⟩

/-- A literal is the longest token if what is behind it cannot go on it. -/
theorem of_literal (h : Literal kind cs)
    (hrest : ∀ c ∈ rest.head?, c.isDigit = false ∧ (kind = .integer → c ≠ '.')) :
  Longest kind cs rest
  := by
  refine .pattern (.literal h) ?_
  intro kind' more hne hmore h'
  replace h' := Pattern.literal_of_append h h'
  obtain ⟨d, more, rfl⟩ := List.exists_cons_of_ne_nil hne
  obtain ⟨rest, rfl⟩ := hmore
  obtain ⟨hdigit, hpoint⟩ := hrest d rfl
  -- What is behind it would begin with a point, which would be the second one in a decimal.
  rcases h'.dotted.2 d (List.mem_append_right cs List.mem_cons_self) with hd | rfl
  · rw [hdigit] at hd
    cases hd
  · rcases h.isNumeral with rfl | rfl
    · exact hpoint rfl rfl
    · have hcount := h'.count_point
      rw [List.count_append, h.count_point, List.count_cons_self, if_pos rfl] at hcount
      split at hcount <;> omega

/-- No literal is cut before a digit, and none for an integer before a point. -/
theorem head?_of_isNumeral (h : Longest kind cs rest) (hkind : kind.IsNumeral) :
  Literal kind cs ∧ ∀ c ∈ rest.head?, c.isDigit = false ∧ (kind = .integer → c ≠ '.')
  := by
  cases h with
  | stray => rcases hkind with hkind | hkind <;> cases hkind
  | pattern h hmax =>
    cases h with
    | mark h =>
      revert h
      unfold punctuation?
      rcases hkind with rfl | rfl <;> split <;> simp
    | word => rcases hkind with hkind | hkind <;> cases hkind
    | literal h =>
      refine ⟨h, ?_⟩
      intro c hc
      obtain ⟨rest, rfl⟩ := List.head?_eq_some_iff.1 hc
      have hnext : ∀ kind', ¬ Literal kind' (cs ++ [c]) := fun kind' h' =>
        hmax kind' [c] (List.cons_ne_nil c []) (List.prefix_append [c] rest) (.literal h')
      constructor
      · by_contra hdigit
        exact hnext kind (h.concat_digit (Bool.of_not_eq_false hdigit))
      · rintro rfl rfl
        exact hnext .decimal h.concat_point

/-- Digits are in numerals only. -/
theorem isNumeral_of_isDigit (h : Longest kind cs rest) {d : Char} (hmem : d ∈ cs)
    (hd : d.isDigit) :
  kind.IsNumeral
  := by
  cases h with
  | pattern h _ =>
    cases h with
    | literal h => exact h.isNumeral
    | mark h =>
      obtain rfl := List.mem_singleton.1 hmem
      rw [(punctuation?_of_numeric (.inl hd)).1] at h
      cases h
    | word =>
      have hnone : ∀ c ∈ ['!', 'd', 'i', 'e'], ¬ c.isDigit := by simp [Char.isDigit]
      exact absurd hd (hnone d hmem)
  | stray hnone =>
    obtain rfl := List.mem_singleton.1 hmem
    have hdigit : Literal .integer [d] :=
      .numeral (.integer (List.cons_ne_nil d []) (List.forall_mem_singleton.2 hd))
    exact absurd (.literal hdigit) (hnone .integer [d] (List.prefix_append [d] rest))

/-- The mark of a word stands nowhere in a token but at its head. -/
theorem mark_not_mem_tail (h : Longest kind cs rest) :
  '!' ∉ cs.tail
  := by
  cases h with
  | stray => exact List.not_mem_nil
  | pattern h _ =>
    cases h with
    | literal h =>
      intro hmem
      rcases h.dotted.2 '!' (List.mem_of_mem_tail hmem) with hmark | hmark
      · cases hmark
      · revert hmark
        decide
    | mark => exact List.not_mem_nil
    | word => decide

/-- Where no blank begins a token, there is none in it. -/
theorem isBlank_of_mem (h : Longest kind cs rest) (hhead : ∀ c ∈ cs.head?, isBlank c = false) :
  ∀ c ∈ cs, isBlank c = false
  := by
  cases h with
  | stray =>
    intro c hc
    exact hhead c (List.mem_singleton.1 hc ▸ rfl)
  | pattern h _ =>
    cases h with
    | literal h =>
      intro c hc
      rcases h.dotted.2 c hc with hdigit | rfl
      · exact isBlank_of_isDigit hdigit
      · rfl
    | mark =>
      intro c hc
      exact hhead c (List.mem_singleton.1 hc ▸ rfl)
    | word => simp [isBlank]

/-- The word is the token at the head of every text that begins with it. -/
theorem word (rest : List Char) :
  Longest .die ['!', 'd', 'i', 'e'] rest
  := by
  refine .pattern .word ?_
  intro kind more hne hmore h
  exact hne (List.append_right_eq_self.1 (Pattern.word_of_mark h).2)

end Longest

/-! ### The token at the head of a text -/

/-- A text begins with the digits up to something else. -/
theorem exists_digits (cs : List Char) :
  ∃ ds rest, cs = ds ++ rest ∧ (∀ c ∈ ds, c.isDigit) ∧ ∀ c ∈ rest.head?, c.isDigit = false
  := by
  induction cs with
  | nil => exact ⟨[], [], rfl, List.forall_mem_nil _, by simp⟩
  | cons c cs ih =>
    by_cases hc : c.isDigit
    · obtain ⟨ds, rest, rfl, hds, hrest⟩ := ih
      exact ⟨c :: ds, rest, rfl, List.forall_mem_cons.2 ⟨hc, hds⟩, hrest⟩
    · refine ⟨[], c :: cs, rfl, List.forall_mem_nil _, ?_⟩
      rintro d ⟨⟩
      exact Bool.of_not_eq_true hc

/-- A digit begins a numeral, which goes on as long as there are digits, and over one point. -/
theorem exists_longest_digit {c : Char} (hc : c.isDigit) (cs : List Char) :
  ∃ kind front rest, cs = front ++ rest ∧ longest c cs = (kind, front.length)
    ∧ Longest kind (c :: front) rest
  := by
  obtain ⟨ds, rest, rfl, hds, hrest⟩ := exists_digits cs
  have hwhole : ∀ d ∈ c :: ds, d.isDigit := List.forall_mem_cons.2 ⟨hc, hds⟩
  by_cases hpoint : rest.head? = some '.'
  · obtain ⟨rest, rfl⟩ := List.head?_eq_some_iff.1 hpoint
    obtain ⟨ps, rest, rfl, hps, hrest⟩ := exists_digits rest
    refine ⟨.decimal, ds ++ '.' :: ps, rest, by simp, ?_, ?_⟩
    · rw [← longest_decimal hc hds hps hrest, List.append_assoc, List.cons_append]
    · apply Longest.of_literal (.numeral (.decimal (List.cons_ne_nil c ds) hwhole hps))
      intro d hd
      exact ⟨hrest d hd, nofun⟩
  · have hdelimiting : Delimiting rest := by
      intro d hd
      refine ⟨hrest d hd, ?_⟩
      rintro rfl
      exact hpoint hd
    refine ⟨.integer, ds, rest, rfl, longest_integer hc hds hdelimiting, ?_⟩
    apply Longest.of_literal (.numeral (.integer (List.cons_ne_nil c ds) hwhole))
    intro d hd
    exact ⟨hrest d hd, fun _ => (hdelimiting d hd).2⟩

/-- A point begins a decimal if there are digits behind it. -/
theorem exists_longest_point (cs : List Char) :
  ∃ kind front rest, cs = front ++ rest ∧ longest '.' cs = (kind, front.length)
    ∧ Longest kind ('.' :: front) rest
  := by
  obtain ⟨ds, rest, rfl, hds, hrest⟩ := exists_digits cs
  cases ds with
  | nil =>
    refine ⟨.stray, [], rest, rfl, ?_, ?_⟩
    · rw [longest_point, takeWhile_digits hds hrest]
      rfl
    · apply Longest.of_none
      intro kind front hfront h
      obtain ⟨hne, hdigits⟩ := (h.literal_of_numeric (.inr rfl)).fraction_of_point
      obtain ⟨d, front, rfl⟩ := List.exists_cons_of_ne_nil hne
      obtain ⟨rest, rfl⟩ := hfront
      have hd := hdigits d List.mem_cons_self
      rw [hrest d rfl] at hd
      cases hd
  | cons d ds =>
    refine ⟨.decimal, d :: ds, rest, rfl, ?_, ?_⟩
    · rw [longest_point, takeWhile_digits hds hrest]
    · apply Longest.of_literal (.fraction (List.cons_ne_nil d ds) hds)
      intro c hc
      exact ⟨hrest c hc, nofun⟩

/-- A mark begins the word, or is a stray character. -/
theorem exists_longest_mark (cs : List Char) :
  ∃ kind front rest, cs = front ++ rest ∧ longest '!' cs = (kind, front.length)
    ∧ Longest kind ('!' :: front) rest
  := by
  rw [longest_mark]
  by_cases hword : ['d', 'i', 'e'] <+: cs
  · obtain ⟨rest, rfl⟩ := hword
    refine ⟨.die, ['d', 'i', 'e'], rest, rfl, if_pos (List.prefix_append _ _), Longest.word rest⟩
  · refine ⟨.stray, [], cs, rfl, if_neg hword, ?_⟩
    apply Longest.of_none
    intro kind front hfront h
    obtain ⟨-, rfl⟩ := h.word_of_mark
    exact hword hfront

/-- Any other character is a token of its own, stray or not. -/
theorem exists_longest_other {c : Char} (hc : ¬ (c.isDigit ∨ c = '.')) (hword : c ≠ '!')
    (cs : List Char) :
  ∃ kind front rest, cs = front ++ rest ∧ longest c cs = (kind, front.length)
    ∧ Longest kind (c :: front) rest
  := by
  have hlongest : longest c cs = ((punctuation? c).getD .stray, 0) := by
    have hc := not_or.1 hc
    simp [longest, hc.1, hc.2, hword]
  rw [hlongest]
  cases hmark : punctuation? c with
  | some kind =>
    refine ⟨kind, [], cs, rfl, rfl, .pattern (.mark hmark) ?_⟩
    intro kind' more hne _ h
    exact hne (h.mark_of_not_numeric hc hword).2
  | none =>
    refine ⟨.stray, [], cs, rfl, rfl, Longest.of_none ?_⟩
    intro kind front _ h
    have hkind := (h.mark_of_not_numeric hc hword).1
    rw [hmark] at hkind
    cases hkind

/-- The token that is cut off a text is the longest one at its head. -/
theorem exists_longest (c : Char) (cs : List Char) :
  ∃ kind front rest, cs = front ++ rest ∧ longest c cs = (kind, front.length)
    ∧ Longest kind (c :: front) rest
  := by
  by_cases hc : c.isDigit ∨ c = '.'
  · rcases hc with hc | rfl
    · exact exists_longest_digit hc cs
    · exact exists_longest_point cs
  · by_cases hword : c = '!'
    · subst hword
      exact exists_longest_mark cs
    · exact exists_longest_other hc hword cs

/-- No other token is the longest one. -/
theorem Longest.longest_eq {kind : Kind} {c : Char} {cs rest : List Char}
    (h : Longest kind (c :: cs) rest) :
  longest c (cs ++ rest) = (kind, cs.length)
  := by
  obtain ⟨kind', front, rest', htext, hlongest, h'⟩ := exists_longest c (cs ++ rest)
  obtain ⟨rfl, hfront, -⟩ := h.unique h' (congrArg (List.cons c) htext)
  cases hfront
  exact hlongest

end Token

end Dice
