import Dice.Proofs.Reader.Spans

/-!
# Spacing

Blanks that are inserted before, between and behind the tokens of a text change no token: each of
them ends where it did, as nothing behind a token is part of it. So the tokens are the same ones
further on, and a text denotes the same with these blanks. An error moves by the blanks inserted
before it.
-/

namespace Dice

/-- A text that starts at a byte, with the blanks of each byte inserted before the character there,
and those of its end behind it. -/
def spaced (blanks : Nat → List Char) (start : Nat) : List Char → List Char
  | [] => blanks start
  | c :: cs => blanks start ++ c :: spaced blanks (start + c.utf8Size) cs

/-- The length of the blanks of all bytes before one. -/
def widths (blanks : Nat → List Char) (p : Nat) : Nat :=
  ((List.range p).map fun q => byteLength (blanks q)).sum

/-- There are no blanks for the bytes from one up to another. -/
def Free (blanks : Nat → List Char) (p q : Nat) : Prop :=
  ∀ i, p ≤ i → i < q → blanks i = []

/-- Blanks to insert into a text. None of them go into a token. -/
structure Spacing (text : String) where
  blanks : Nat → List Char
  isBlank (p : Nat) : ∀ c ∈ blanks p, Token.isBlank c
  outside : ∀ t ∈ Token.ofText text.toList, ∀ p, t.start < p → p < t.stop → blanks p = []

namespace Spacing

variable {text : String} (w : Spacing text)

/-- The text with the blanks. -/
def apply : String :=
  .ofList (spaced w.blanks 0 text.toList)

/-- The length of the blanks inserted before what stands at a byte. -/
def before (p : Nat) : Nat :=
  widths w.blanks (p + 1)

end Spacing

/-- An error at its place in the text with blanks. -/
def ReadError.spaced {text : String} (w : Spacing text) (e : ReadError) : ReadError :=
  { e with start := e.start + w.before e.start, stop := e.stop + w.before e.start }

/-! ### The end of a token -/

namespace Token

theorem takeWhile_append_of_length_le
    {p : Char → Bool} {cs ds : List Char} (h : ((cs ++ ds).takeWhile p).length ≤ cs.length) :
  (cs ++ ds).takeWhile p = cs.takeWhile p
  := by
  induction cs with
  | nil => exact List.eq_nil_of_length_eq_zero (Nat.le_zero.1 h)
  | cons c cs ih =>
    rw [List.cons_append, List.takeWhile_cons] at h
    rw [List.cons_append, List.takeWhile_cons, List.takeWhile_cons]
    split
    · rename_i hc
      rw [if_pos hc, List.length_cons, List.length_cons] at h
      rw [ih (Nat.le_of_succ_le_succ h)]
    · rfl

/-- The digits of a numeral end within a text if the numeral does. -/
theorem longest_digit_of_le
    {c : Char} {cs ds : List Char} (hc : c.isDigit) (h : (longest c (cs ++ ds)).2 ≤ cs.length) :
  longest c cs = longest c (cs ++ ds)
  := by
  have hsplit : (cs.takeWhile Char.isDigit).length + (cs.dropWhile Char.isDigit).length = cs.length
    := by
    rw [← List.length_append, List.takeWhile_append_dropWhile]
  simp only [longest, hc, if_true] at h ⊢
  cases hrest : cs.dropWhile Char.isDigit with
  | nil =>
    -- The text holds digits only, and the numeral goes no further.
    rw [hrest, List.length_nil, Nat.add_zero] at hsplit
    rw [List.takeWhile_append, if_pos hsplit, List.dropWhile_append, hrest, List.isEmpty_nil,
      if_pos rfl] at h ⊢
    split at h
    · simp only [List.length_append] at h
      omega
    · simp only [List.length_append] at h ⊢
      rw [hsplit]
      congr 1
      omega
  | cons d rest =>
    rw [hrest, List.length_cons] at hsplit
    rw [List.takeWhile_append, if_neg (by omega), List.dropWhile_append, hrest, List.isEmpty_cons,
      if_neg Bool.false_ne_true, List.cons_append] at h ⊢
    by_cases hd : d = '.'
    · subst hd
      simp only [] at h ⊢
      rw [takeWhile_append_of_length_le]
      omega
    · simp [hd]

/-- A point begins a decimal with the digits behind it. -/
theorem longest_point (cs : List Char) :
  longest '.' cs
    = match cs.takeWhile Char.isDigit with
      | [] => (.stray, 0)
      | places => (.decimal, places.length)
  := rfl

theorem longest_point_of_le {cs ds : List Char} (h : (longest '.' (cs ++ ds)).2 ≤ cs.length) :
  longest '.' cs = longest '.' (cs ++ ds)
  := by
  have hplaces : (cs ++ ds).takeWhile Char.isDigit = cs.takeWhile Char.isDigit := by
    apply takeWhile_append_of_length_le
    rw [longest_point] at h
    split at h
    · rename_i hnil
      rw [hnil]
      exact Nat.zero_le _
    · exact h
  rw [longest_point, longest_point, hplaces]

/-- A mark begins the word if the rest of it is behind it. -/
theorem longest_mark (cs : List Char) :
  longest '!' cs = if ['d', 'i', 'e'] <+: cs then (.die, 3) else (.stray, 0)
  := by
  by_cases hword : ['d', 'i', 'e'] <+: cs
  · obtain ⟨ds, rfl⟩ := hword
    exact (if_pos (List.prefix_append ['d', 'i', 'e'] ds)).symm
  · have hpoint : ¬ ('!' == '.') = true := by decide
    rw [longest, if_neg (by decide), if_neg hpoint, if_pos (beq_self_eq_true '!'), if_neg hword]
    rintro ds rfl
    exact hword (List.prefix_append ['d', 'i', 'e'] ds)

theorem longest_mark_of_le {cs ds : List Char} (h : (longest '!' (cs ++ ds)).2 ≤ cs.length) :
  longest '!' cs = longest '!' (cs ++ ds)
  := by
  have hbehind := List.prefix_append cs ds
  have hword : ['d', 'i', 'e'] <+: cs ++ ds ↔ ['d', 'i', 'e'] <+: cs := by
    constructor
    · intro hprefix
      rw [longest_mark, if_pos hprefix] at h
      exact List.prefix_of_prefix_length_le hprefix hbehind h
    · intro hprefix
      exact hprefix.trans hbehind
  rw [longest_mark, longest_mark]
  simp only [hword]

/-- What is behind a token does not decide how long it is. -/
theorem longest_of_le
    {c : Char} {cs ds : List Char} (h : (longest c (cs ++ ds)).2 ≤ cs.length) :
  longest c cs = longest c (cs ++ ds)
  := by
  by_cases hdigit : c.isDigit
  · apply longest_digit_of_le hdigit h
  · by_cases hpoint : c = '.'
    · subst hpoint
      apply longest_point_of_le h
    · by_cases hmark : c = '!'
      · subst hmark
        apply longest_mark_of_le h
      · simp [longest, hdigit, hpoint, hmark]

theorem scan_blank {c : Char} (hc : isBlank c) (start : Nat) (cs : List Char) :
  scan start 0 (c :: cs) = scan (start + c.utf8Size) 0 cs
  := if_pos hc

/-- A character that is no blank begins the longest token. -/
theorem scan_token {c : Char} (hc : ¬ isBlank c) (start : Nat) (cs : List Char) :
  scan start 0 (c :: cs)
    = ⟨(longest c cs).1, c :: cs.take (longest c cs).2, start⟩
        :: scan (start + c.utf8Size) (longest c cs).2 cs
  := if_neg hc

end Token

/-! ### Blanks within a text -/

section

variable {blanks : Nat → List Char}

theorem widths_succ (blanks : Nat → List Char) (p : Nat) :
  widths blanks (p + 1) = widths blanks p + byteLength (blanks p)
  := by
  rw [widths, List.range_succ, List.map_append, List.sum_append, List.map_singleton,
    List.sum_singleton, widths]

theorem Free.mono {p p' q q' : Nat} (h : Free blanks p q) (hp : p ≤ p') (hq : q' ≤ q) :
  Free blanks p' q'
  := fun i hi hi' => h i (hp.trans hi) (hi'.trans_le hq)

theorem widths_of_free {p q : Nat} (hle : p ≤ q) (h : Free blanks p q) :
  widths blanks q = widths blanks p
  := by
  induction q, hle using Nat.le_induction with
  | base => rfl
  | succ q hle ih =>
    rw [widths_succ, h q hle (Nat.lt_succ_self q), byteLength_nil, Nat.add_zero]
    apply ih (h.mono (Nat.le_refl _) (Nat.le_succ q))

/-- Without blanks for its first characters, a text begins with them. -/
theorem spaced_of_free
    {start n : Nat} {cs : List Char} (h : Free blanks start (start + byteLength (cs.take n))) :
  spaced blanks start cs
    = cs.take n ++ spaced blanks (start + byteLength (cs.take n)) (cs.drop n)
  := by
  induction n generalizing start cs with
  | zero => rfl
  | succ n ih =>
    cases cs with
    | nil => rfl
    | cons c cs =>
      rw [List.take_succ_cons, byteLength_cons, ← Nat.add_assoc] at h ⊢
      have hpos := c.utf8Size_pos
      have hhere : blanks start = [] := h start (Nat.le_refl _) (by omega)
      rw [spaced, hhere, List.nil_append, List.drop_succ_cons, List.cons_append,
        ih (h.mono (Nat.le_add_right _ _) (Nat.le_refl _))]

/-- A text with blanks begins like the text, up to the end or to a blank. -/
theorem exists_front
    (hblank : ∀ p, ∀ c ∈ blanks p, Token.isBlank c) (start : Nat) (cs : List Char) :
  ∃ front back rest, cs = front ++ back ∧ spaced blanks start cs = front ++ rest
    ∧ ∀ c ∈ rest.head?, Token.isBlank c
  := by
  induction cs generalizing start with
  | nil =>
    refine ⟨[], [], blanks start, rfl, rfl, ?_⟩
    intro c hc
    apply hblank start c (List.mem_of_mem_head? hc)
  | cons c cs ih =>
    rw [spaced]
    cases hhere : blanks start with
    | nil =>
      obtain ⟨front, back, rest, hcs, hspaced, hrest⟩ := ih (start + c.utf8Size)
      refine ⟨c :: front, back, rest, ?_, ?_, hrest⟩
      · rw [hcs, List.cons_append]
      · rw [hspaced, List.nil_append, List.cons_append]
    | cons b bs =>
      refine ⟨[], c :: cs, _, rfl, rfl, ?_⟩
      intro d hd
      cases hd
      apply hblank start b
      rw [hhere]
      apply List.mem_cons_self

/-- Without blanks within it, a token is as long as it was. -/
theorem longest_spaced
    (hblank : ∀ p, ∀ c ∈ blanks p, Token.isBlank c) {c : Char} {start : Nat} {cs : List Char}
    (h : Free blanks start (start + byteLength (cs.take (Token.longest c cs).2))) :
  Token.longest c (spaced blanks start cs) = Token.longest c cs
  := by
  have hle := Token.longest_le c cs
  have hspaced := spaced_of_free h
  generalize hn : (Token.longest c cs).2 = n at h hle hspaced
  obtain ⟨front, back, rest, hdrop, hfront, hrest⟩ :=
    exists_front hblank (start + byteLength (cs.take n)) (cs.drop n)
  have hcs : cs = (cs.take n ++ front) ++ back := by
    rw [List.append_assoc, ← hdrop, List.take_append_drop]
  have hlength : n ≤ (cs.take n ++ front).length := by
    rw [List.length_append, List.length_take, Nat.min_eq_left hle]
    exact Nat.le_add_right n _
  rw [hspaced, hfront, ← List.append_assoc, Token.longest_append hrest]
  generalize cs.take n ++ front = known at hcs hlength
  subst hcs
  apply Token.longest_of_le
  rw [hn]
  exact hlength

theorem utf8Size_of_isBlank {c : Char} (h : Token.isBlank c) :
  c.utf8Size = 1
  := by
  have hcases : c = ' ' ∨ c = '\t' ∨ c = '\r' ∨ c = '\n' := by
    simpa [Token.isBlank, or_assoc] using h
  rcases hcases with rfl | rfl | rfl | rfl <;> rfl

/-- The tokens of a text with blanks are those of the text, each behind the blanks before it. -/
theorem scan_spaced
    (hblank : ∀ p, ∀ c ∈ blanks p, Token.isBlank c) {start skip : Nat} {cs : List Char}
    (hskip : skip ≤ cs.length) (hfree : Free blanks start (start + byteLength (cs.take skip)))
    (houtside : ∀ t ∈ Token.scan start skip cs, Free blanks (t.start + 1) t.stop) :
  Token.scan (start + widths blanks start) skip (spaced blanks start cs)
    = (Token.scan start skip cs).map (.move fun p => p + widths blanks (p + 1))
  := by
  induction cs generalizing start skip with
  | nil =>
    obtain rfl := Nat.le_zero.1 hskip
    rw [spaced, ← List.append_nil (blanks start), Token.scan_blanks (hblank start)]
    rfl
  | cons c cs ih =>
    have hpos := c.utf8Size_pos
    cases skip with
    | succ skip =>
      rw [List.take_succ_cons, byteLength_cons, ← Nat.add_assoc] at hfree
      have hhere : blanks start = [] := hfree start (Nat.le_refl _) (by omega)
      have hwidths : widths blanks (start + c.utf8Size) = widths blanks start :=
        widths_of_free (Nat.le_add_right _ _) (hfree.mono (Nat.le_refl _) (Nat.le_add_right _ _))
      rw [Token.scan] at houtside ⊢
      rw [spaced, hhere, List.nil_append, Token.scan, Nat.add_right_comm, ← hwidths]
      apply ih (Nat.le_of_succ_le_succ hskip) _ houtside
      apply hfree.mono (Nat.le_add_right _ _) (Nat.le_refl _)
    | zero =>
      rw [spaced, Token.scan_blanks (hblank start), Nat.add_assoc, ← widths_succ]
      by_cases hc : Token.isBlank c
      · have hsize := utf8Size_of_isBlank hc
        rw [Token.scan_blank hc, hsize] at houtside ⊢
        rw [Token.scan_blank hc, hsize, Nat.add_right_comm]
        apply ih (Nat.zero_le _) _ houtside
        intro i hi hi'
        exact absurd hi' (Nat.not_lt_of_le hi)
      · rw [Token.scan_token hc] at houtside ⊢
        obtain ⟨htoken, hrest⟩ := List.forall_mem_cons.1 houtside
        rw [Token.stop, byteLength_cons, ← Nat.add_assoc] at htoken
        have hnext : start + 1 ≤ start + c.utf8Size := Nat.add_le_add_left hpos start
        have hwithin := htoken.mono hnext (Nat.le_refl _)
        have hwidths : widths blanks (start + c.utf8Size) = widths blanks (start + 1) :=
          widths_of_free hnext (htoken.mono (Nat.le_refl _) (Nat.le_add_right _ _))
        have hle := Token.longest_le c cs
        rw [Token.scan_token hc, longest_spaced hblank hwithin, List.map_cons, Nat.add_right_comm,
          ← hwidths, ih hle hwithin hrest, hwidths, spaced_of_free hwithin, List.take_left']
        · rfl
        · rw [List.length_take, Nat.min_eq_left hle]

/-- Without blanks within it, the first part of a text is as long as it was. -/
theorem byteLength_spaced_append
    {start : Nat} {cs : List Char} (h : Free blanks (start + 1) (start + byteLength cs))
    (rest : List Char) :
  byteLength (spaced blanks start (cs ++ rest)) + widths blanks start
    = byteLength cs + (byteLength (spaced blanks (start + byteLength cs) rest)
      + widths blanks (start + byteLength cs))
  := by
  cases cs with
  | nil => exact (Nat.zero_add _).symm
  | cons c cs =>
    have hnext : start + 1 ≤ start + byteLength (c :: cs) :=
      Nat.add_le_add_left (Nat.add_pos_left c.utf8Size_pos _) start
    have hwithin : Free blanks (start + c.utf8Size)
        (start + c.utf8Size + byteLength ((cs ++ rest).take cs.length)) := by
      rw [List.take_left', Nat.add_assoc]
      · apply h.mono (Nat.add_le_add_left c.utf8Size_pos start) (Nat.le_refl _)
      · rfl
    rw [widths_of_free hnext h, widths_succ, List.cons_append, spaced, spaced_of_free hwithin,
      List.take_left' rfl, List.drop_left' rfl]
    simp only [byteLength_append, byteLength_cons, Nat.add_assoc]
    omega

/-- The length of a text with blanks. -/
theorem byteLength_spaced
    {start : Nat} {cs : List Char} {ts : List Token} (h : Token.Laid start cs ts)
    (houtside : ∀ t ∈ ts, Free blanks (t.start + 1) t.stop) :
  byteLength (spaced blanks start cs) + widths blanks start
    = byteLength cs + widths blanks (start + byteLength cs + 1)
  := by
  induction h with
  | @nil start =>
    rw [spaced, byteLength_nil, Nat.zero_add, Nat.add_zero, widths_succ, Nat.add_comm]
  | @blank start c cs ts hc _ ih =>
    have hrest := ih houtside
    rw [utf8Size_of_isBlank hc, widths_succ] at hrest
    rw [spaced, byteLength_append, byteLength_cons, byteLength_cons, utf8Size_of_isBlank hc,
      ← Nat.add_assoc start]
    omega
  | @token t rest ts _ ih =>
    obtain ⟨htoken, houtside⟩ := List.forall_mem_cons.1 houtside
    have hstop : t.start + byteLength t.chars = t.stop := rfl
    rw [byteLength_spaced_append htoken, hstop, ih houtside, byteLength_append,
      ← Nat.add_assoc t.start, hstop, ← Nat.add_assoc (byteLength t.chars)]

end

/-! ### Texts -/

namespace Spacing

variable {text : String} (w : Spacing text)

theorem toList_apply :
  w.apply.toList = spaced w.blanks 0 text.toList
  := String.toList_ofList

/-- The tokens of the text with blanks. -/
theorem tokens_apply :
  Token.ofText w.apply.toList
    = (Token.ofText text.toList).map (.move fun p => p + w.before p)
  := by
  have hfree : Free w.blanks 0 (0 + byteLength (text.toList.take 0)) := by
    intro i _ hi
    cases hi
  rw [toList_apply]
  exact scan_spaced w.isBlank (Nat.zero_le _) hfree w.outside

/-- The end of the text with blanks. -/
theorem utf8ByteSize_apply :
  w.apply.utf8ByteSize = text.utf8ByteSize + w.before text.utf8ByteSize
  := by
  have hlength := byteLength_spaced (Token.laid_ofText text.toList) w.outside
  rw [Nat.zero_add] at hlength
  rw [← byteLength_toList, ← byteLength_toList, toList_apply]
  exact hlength

end Spacing

namespace Value

/-- It does not matter for reading a value where its tokens stand. -/
theorem readFrom_move (f : Nat → Nat) (state : State) (ts : List Token) :
  readFrom state (ts.map (Token.move f))
    = ((readFrom state ts).map fun p => (p.1, p.2.map (Token.move f))).mapError (.move f)
  := by
  induction ts generalizing state with
  | nil => rfl
  | cons t ts ih =>
    rw [List.map_cons, readFrom, readFrom, step_move]
    rcases state.step t with cause | state | v
    · rfl
    · exact ih state
    · rfl

theorem ofTokens_move (f : Nat → Nat) (ts : List Token) :
  ofTokens (ts.map (Token.move f)) = (ofTokens ts).mapError (.move f)
  := by
  rw [ofTokens, ofTokens, read, read, readFrom_move]
  rcases readFrom (.value []) ts with e | ⟨v, _ | ⟨t, us⟩⟩ <;> rfl

/-- The place of a fault in the text with blanks. -/
theorem locate_apply {text : String} (w : Spacing text) (e : Fault) :
  (e.move fun p => p + w.before p).locate w.apply.toList = (e.locate text.toList).spaced w
  := by
  obtain ⟨cause, token⟩ := e
  cases token with
  | none =>
    have hlength := w.utf8ByteSize_apply
    rw [← byteLength_toList, ← byteLength_toList] at hlength
    rw [Fault.move, Option.map_none, Fault.locate, Fault.locate]
    simp only [hlength]
    rfl
  | some t =>
    have hstop : t.start + w.before t.start + byteLength t.chars = t.stop + w.before t.start :=
      Nat.add_right_comm _ _ _
    change ReadError.mk cause _ (t.start + w.before t.start + byteLength t.chars) t.chars = _
    rw [hstop]
    rfl

/-- A text with blanks inserted before, between or behind its tokens denotes the value and the
values that it denotes without them. Where it denotes none, the error is the same with the same
slice, and moves by the length of the blanks before it; at the end of the text, it moves to the new
end. -/
theorem ofText_spaced (text : String) (w : Spacing text) :
  ofText w.apply = (ofText text).mapError (·.spaced w)
    ∧ sequenceOfText w.apply = (sequenceOfText text).mapError (·.spaced w)
    ∧ w.apply.utf8ByteSize = text.utf8ByteSize + w.before text.utf8ByteSize
  := by
  refine ⟨?_, ?_, w.utf8ByteSize_apply⟩
  · rw [ofText, ofText, w.tokens_apply, ofTokens_move]
    cases ofTokens (Token.ofText text.toList) with
    | ok v => rfl
    | error e => exact congrArg Except.error (locate_apply w e)
  · rw [sequenceOfText, sequenceOfText, w.tokens_apply, sequenceOfTokens, sequenceOfTokens,
      sequenceFrom_move]
    cases sequenceFrom none (Token.ofText text.toList) with
    | ok vs => rfl
    | error e => exact congrArg Except.error (locate_apply w e)

/-- A line feed before a text, and two blanks between the two decimals in it. -/
def parted : Spacing "[1..2]" where
  blanks
    | 0 => ['\n']
    | 3 => [' ', '\t']
    | _ => []
  isBlank p c hc := by
    split at hc
    · obtain rfl := List.mem_singleton.1 hc
      rfl
    · rcases List.mem_pair.1 hc with rfl | rfl <;> rfl
    · cases hc
  outside := by
    have houtside : ∀ t ∈ Token.ofText "[1..2]".toList,
        ¬ (t.start < 0 ∧ 0 < t.stop) ∧ ¬ (t.start < 3 ∧ 3 < t.stop) := by
      decide
    intro t ht p hstart hstop
    split
    · cases (houtside t ht).1 ⟨hstart, hstop⟩
    · cases (houtside t ht).2 ⟨hstart, hstop⟩
    · rfl

/-- The second decimal is refused with and without the blanks. -/
theorem ofText_spaced_parted :
  ofText "[1..2]" = .error ⟨.unexpectedToken (some .decimal) [.rightBracket], 3, 5, ['.', '2']⟩
    ∧ parted.apply = "\n[1. \t.2]"
    ∧ ofText "\n[1. \t.2]"
      = .error ⟨.unexpectedToken (some .decimal) [.rightBracket], 6, 8, ['.', '2']⟩
  := by
  have herror : ofText "[1..2]"
      = .error ⟨.unexpectedToken (some .decimal) [.rightBracket], 3, 5, ['.', '2']⟩ := by
    rfl
  have happly : parted.apply = "\n[1. \t.2]" := by
    rfl
  refine ⟨herror, happly, ?_⟩
  rw [← happly, (ofText_spaced "[1..2]" parted).1, herror]
  rfl

end Value

end Dice
