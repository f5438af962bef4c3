import Dice.Proofs.Code.Numeral
import Dice.Value.Reader

/-!
# Sequences

A blank ends every token before it, so the tokens of two texts with blanks between them are those of
the one and then those of the other, further on. A value ends with its last token, whatever comes
behind it. So the values of such texts are those of the one and then those of the other, and an
error in the second one is the same further on.
-/

namespace Dice

/-! ### Results -/

theorem exists_of_map_eq_ok {ε α β : Type} {f : α → β} {x : Except ε α} {b : β}
    (h : x.map f = .ok b) :
  ∃ a, x = .ok a ∧ f a = b
  := by
  cases x with
  | error e => cases h
  | ok a =>
    cases h
    exact ⟨a, rfl, rfl⟩

theorem mapError_eq_ok_iff {ε ε' α : Type} {f : ε → ε'} {x : Except ε α} {a : α} :
  x.mapError f = .ok a ↔ x = .ok a
  := by
  cases x <;> simp [Except.mapError]

theorem exists_of_mapError_eq_error {ε ε' α : Type} {f : ε → ε'} {x : Except ε α} {e : ε'}
    (h : x.mapError f = .error e) :
  ∃ e', x = .error e' ∧ f e' = e
  := by
  cases x with
  | ok a => cases h
  | error e' =>
    cases h
    exact ⟨e', rfl, rfl⟩

/-! ### Lengths in bytes -/

/-- The length in bytes is that of the text as a string. -/
theorem utf8ByteSize_ofList (cs : List Char) :
  (String.ofList cs).utf8ByteSize = byteLength cs
  := by
  induction cs with
  | nil => rfl
  | cons c cs ih =>
    rw [String.ofList_cons, String.utf8ByteSize_append, String.utf8ByteSize_singleton, ih,
      byteLength_cons]

theorem byteLength_toList (s : String) :
  byteLength s.toList = s.utf8ByteSize
  := by
  rw [← utf8ByteSize_ofList, String.ofList_toList]

/-! ### Blanks -/

namespace Token

theorem not_of_isBlank {c : Char} (h : isBlank c) :
  c.isDigit = false ∧ c ≠ '.' ∧ c ≠ 'd' ∧ c ≠ 'i' ∧ c ≠ 'e'
  := by
  have hcases : c = ' ' ∨ c = '\t' ∨ c = '\r' ∨ c = '\n' := by
    simpa [isBlank, or_assoc] using h
  rcases hcases with rfl | rfl | rfl | rfl <;> decide

section

variable {p : Char → Bool} {rest : List Char} (hrest : ∀ c ∈ rest.head?, p c = false)

include hrest

theorem takeWhile_append_of_head? (cs : List Char) :
  (cs ++ rest).takeWhile p = cs.takeWhile p
  := by
  induction cs with
  | nil =>
    cases rest with
    | nil => rfl
    | cons c rest => exact List.takeWhile_cons_of_neg (by simp [hrest c rfl])
  | cons c cs ih =>
    rw [List.cons_append, List.takeWhile_cons, List.takeWhile_cons, ih]

theorem dropWhile_append_of_head? (cs : List Char) :
  (cs ++ rest).dropWhile p = cs.dropWhile p ++ rest
  := by
  induction cs with
  | nil =>
    cases rest with
    | nil => rfl
    | cons c rest => exact List.dropWhile_cons_of_neg (by simp [hrest c rfl])
  | cons c cs ih =>
    rw [List.cons_append, List.dropWhile_cons, List.dropWhile_cons, ih]
    split <;> rfl

end

/-- A token does not go on behind the text. -/
theorem longest_le (c : Char) (cs : List Char) :
  (longest c cs).2 ≤ cs.length
  := by
  have hdigits : ∀ ds : List Char, (ds.takeWhile Char.isDigit).length ≤ ds.length :=
    fun ds => (List.takeWhile_prefix _).length_le
  unfold longest
  split
  · have hsplit : (cs.takeWhile Char.isDigit).length + (cs.dropWhile Char.isDigit).length
        = cs.length := by
      rw [← List.length_append, List.takeWhile_append_dropWhile]
    split
    · rename_i rest heq
      rw [heq, List.length_cons] at hsplit
      have hplaces := hdigits rest
      simp only
      omega
    · exact hdigits cs
  · split
    · split
      · exact Nat.zero_le _
      · exact hdigits cs
    · split
      · split
        · exact Nat.le_add_left 3 _
        · exact Nat.zero_le _
      · exact Nat.zero_le _

/-- A blank does not go on the word. -/
theorem longest_mark_append {rest : List Char} (hrest : ∀ c ∈ rest.head?, isBlank c)
    (cs : List Char) :
  longest '!' (cs ++ rest) = longest '!' cs
  := by
  have hword : ∀ c ∈ rest.head?, c ≠ 'd' ∧ c ≠ 'i' ∧ c ≠ 'e' :=
    fun c hc => (not_of_isBlank (hrest c hc)).2.2
  cases rest with
  | nil => rw [List.append_nil]
  | cons d rest =>
    obtain ⟨hd, hi, he⟩ := hword d rfl
    -- The word ends within the text, or a blank stands where one of its letters would.
    rcases cs with _ | ⟨a, _ | ⟨b, _ | ⟨c, cs⟩⟩⟩
    · simp [longest, hd]
    · simp [longest, hi]
    · simp [longest, he]
    · by_cases ha : a = 'd' <;> by_cases hb : b = 'i' <;> by_cases hc : c = 'e' <;>
        simp [longest, ha, hb, hc]

/-- A blank ends the token before it. -/
theorem longest_append {rest : List Char} (hrest : ∀ c ∈ rest.head?, isBlank c) (c : Char)
    (cs : List Char) :
  longest c (cs ++ rest) = longest c cs
  := by
  have hdigit : ∀ c ∈ rest.head?, c.isDigit = false :=
    fun c hc => (not_of_isBlank (hrest c hc)).1
  unfold longest
  simp only [takeWhile_append_of_head? hdigit, dropWhile_append_of_head? hdigit]
  split
  · cases cs.dropWhile Char.isDigit with
    | nil =>
      cases rest with
      | nil => rfl
      | cons d rest =>
        have hpoint : d ≠ '.' := (not_of_isBlank (hrest d rfl)).2.1
        simp [hpoint]
    | cons d ds =>
      by_cases hpoint : d = '.'
      · subst hpoint
        simp only [List.cons_append, takeWhile_append_of_head? hdigit]
      · simp [hpoint]
  · split
    · rfl
    · split
      · rename_i hmark
        have heq := longest_mark_append hrest cs
        simp only [longest] at heq
        exact heq
      · rfl

/-- The tokens of a text and of one behind a blank. -/
theorem scan_append {rest : List Char} (hrest : ∀ c ∈ rest.head?, isBlank c) (start skip : Nat)
    (cs : List Char) (hskip : skip ≤ cs.length) :
  scan start skip (cs ++ rest)
    = scan start skip cs ++ scan (start + byteLength cs) 0 rest
  := by
  induction cs generalizing start skip with
  | nil =>
    obtain rfl := Nat.le_zero.1 hskip
    rfl
  | cons c cs ih =>
    cases skip with
    | succ skip =>
      rw [List.cons_append, scan, scan, ih _ _ (Nat.le_of_succ_le_succ hskip), byteLength_cons,
        Nat.add_assoc]
    | zero =>
      rw [List.cons_append, scan, scan, byteLength_cons, ← Nat.add_assoc]
      split
      · exact ih _ 0 (Nat.zero_le _)
      · rw [longest_append hrest]
        simp only [ih _ _ (longest_le c cs), List.take_append_of_le_length (longest_le c cs),
          List.cons_append]

/-- Blanks are no tokens. -/
theorem scan_blanks {blanks : List Char} (h : ∀ c ∈ blanks, isBlank c) (start : Nat)
    (rest : List Char) :
  scan start 0 (blanks ++ rest) = scan (start + byteLength blanks) 0 rest
  := by
  induction blanks generalizing start with
  | nil => rfl
  | cons c blanks ih =>
    rw [List.cons_append, scan, if_pos (h c List.mem_cons_self),
      ih (fun d hd => h d (List.mem_cons_of_mem c hd)), byteLength_cons, Nat.add_assoc]

/-- A token that stands elsewhere. -/
def move (f : Nat → Nat) (t : Token) : Token :=
  { t with start := f t.start }

/-- A token further on ends further on. -/
theorem stop_move_add (n : Nat) (t : Token) :
  (t.move (n + ·)).stop = n + t.stop
  := Nat.add_assoc n t.start _

/-- The tokens of a text further on. -/
theorem scan_add (n start skip : Nat) (cs : List Char) :
  scan (n + start) skip cs = (scan start skip cs).map (move (n + ·))
  := by
  induction cs generalizing start skip with
  | nil => cases skip <;> rfl
  | cons c cs ih =>
    cases skip with
    | succ skip => rw [scan, scan, Nat.add_assoc, ih]
    | zero =>
      rw [scan, scan]
      split
      · rw [Nat.add_assoc, ih]
      · simp only [Nat.add_assoc, ih, List.map_cons]
        rfl

/-- The tokens of two texts with blanks between them. -/
theorem ofText_append {as blanks bs : List Char} (hne : blanks ≠ []) (h : ∀ c ∈ blanks, isBlank c) :
  ofText (as ++ blanks ++ bs)
    = ofText as ++ (ofText bs).map (move (byteLength (as ++ blanks) + ·))
  := by
  have hhead : ∀ c ∈ (blanks ++ bs).head?, isBlank c := by
    obtain ⟨c, blanks, rfl⟩ := List.exists_cons_of_ne_nil hne
    intro d hd
    cases hd
    exact h c List.mem_cons_self
  rw [ofText, ofText, ofText, List.append_assoc, scan_append hhead 0 0 as (Nat.zero_le _),
    scan_blanks h, ← scan_add, byteLength_append, Nat.zero_add, Nat.add_zero]

end Token

/-! ### Further on -/

/-- An error further on. -/
def ReadError.shift (n : Nat) (e : ReadError) : ReadError :=
  { e with start := n + e.start, stop := n + e.stop }

namespace Value

/-- A fault elsewhere. -/
def Fault.move (f : Nat → Nat) (e : Fault) : Fault :=
  { e with token := e.token.map (Token.move f) }

/-- A token goes on a value or ends one, which then is the first. -/
theorem sequenceFrom_cons (state? : Option State) (t : Token) (ts : List Token) :
  sequenceFrom state? (t :: ts)
    = match (state?.getD (.value [])).step t with
      | .error cause => .error ⟨cause, t⟩
      | .ok (.next state) => sequenceFrom (some state) ts
      | .ok (.done v) => (sequenceFrom none ts).map (v :: ·)
  := by
  rw [sequenceFrom]
  rcases (state?.getD (.value [])).step t with cause | state | v
  · rfl
  · rfl
  · simp only
    cases sequenceFrom none ts <;> rfl

/-- It does not matter for a step where the token stands. -/
theorem step_move (f : Nat → Nat) (state : State) (t : Token) :
  state.step (t.move f) = state.step t
  := rfl

/-- Nor does it for a sequence where its tokens stand: only its error stands elsewhere too. -/
theorem sequenceFrom_move (f : Nat → Nat) (state? : Option State) (ts : List Token) :
  sequenceFrom state? (ts.map (Token.move f)) = (sequenceFrom state? ts).mapError (.move f)
  := by
  induction ts generalizing state? with
  | nil => cases state? <;> rfl
  | cons t ts ih =>
    rw [List.map_cons, sequenceFrom_cons, sequenceFrom_cons, step_move]
    rcases (state?.getD (.value [])).step t with cause | state | v
    · rfl
    · exact ih (some state)
    · simp only [ih none]
      cases sequenceFrom none ts <;> rfl

/-- The place of a fault in a text behind another one. -/
theorem locate_move_add (e : Fault) (as bs : List Char) :
  (e.move (byteLength as + ·)).locate (as ++ bs) = (e.locate bs).shift (byteLength as)
  := by
  obtain ⟨cause, token⟩ := e
  cases token with
  | none =>
    rw [Fault.move, Fault.locate, Fault.locate]
    simp only [Option.map_none, byteLength_append]
    rfl
  | some t =>
    change ReadError.mk _ _ (t.move _).stop _ = _
    rw [Token.stop_move_add]
    rfl

/-! ### One after another -/

/-- Behind some values, others are read as from the beginning. -/
theorem sequenceFrom_append {state? : Option State} {ts : List Token} {vs : List Value}
    (h : sequenceFrom state? ts = .ok vs) (us : List Token) :
  sequenceFrom state? (ts ++ us) = (sequenceFrom none us).map (vs ++ ·)
  := by
  induction ts generalizing state? vs with
  | nil =>
    cases state? with
    | none =>
      cases h
      exact congrFun Except.map_id.symm _
    | some state => cases h
  | cons t ts ih =>
    rw [sequenceFrom_cons] at h
    rw [List.cons_append, sequenceFrom_cons]
    rcases hstep : (state?.getD (.value [])).step t with cause | state | v
    · rw [hstep] at h
      cases h
    · rw [hstep] at h
      exact ih h
    · rw [hstep] at h
      obtain ⟨vs, hrest, rfl⟩ := exists_of_map_eq_ok h
      simp only [ih hrest]
      cases sequenceFrom none us <;> rfl

/-- Within a value, the sequence is the value and then what comes behind it. -/
theorem sequenceFrom_some (state : State) (ts : List Token) :
  sequenceFrom (some state) ts
    = (readFrom state ts).bind fun p => (sequenceFrom none p.2).map (p.1 :: ·)
  := by
  induction ts generalizing state with
  | nil => rfl
  | cons t ts ih =>
    rw [sequenceFrom_cons, readFrom, Option.getD_some]
    rcases state.step t with cause | state | v
    · rfl
    · exact ih state
    · rfl

/-- At a token between two values, one more begins. -/
theorem sequenceFrom_none_cons (t : Token) (ts : List Token) :
  sequenceFrom none (t :: ts) = sequenceFrom (some (.value [])) (t :: ts)
  := by
  rw [sequenceFrom_cons, sequenceFrom_cons]
  rfl

/-- Tokens that make up no values are none. -/
theorem eq_nil_of_sequenceFrom {ts : List Token} (h : sequenceFrom none ts = .ok []) :
  ts = []
  := by
  cases ts with
  | nil => rfl
  | cons t ts =>
    rw [sequenceFrom_none_cons, sequenceFrom_some] at h
    cases hread : readFrom (.value []) (t :: ts) with
    | error e =>
      rw [hread] at h
      cases h
    | ok p =>
      rw [hread] at h
      obtain ⟨vs, -, hvs⟩ := exists_of_map_eq_ok h
      cases hvs

/-- Tokens make up a value exactly when, as a sequence, they make up just this one. -/
theorem ofTokens_eq_ok_iff (ts : List Token) (v : Value) :
  ofTokens ts = .ok v ↔ sequenceOfTokens ts = .ok [v]
  := by
  cases ts with
  | nil => constructor <;> intro h <;> cases h
  | cons t ts =>
    rw [sequenceOfTokens, sequenceFrom_none_cons, sequenceFrom_some, ofTokens, read]
    cases hread : readFrom (.value []) (t :: ts) with
    | error e => constructor <;> intro h <;> cases h
    | ok p =>
      obtain ⟨w, rest⟩ := p
      constructor
      · intro h
        cases rest with
        | nil =>
          cases h
          rfl
        | cons u us => cases h
      · intro h
        obtain ⟨vs, hvs, hv⟩ := exists_of_map_eq_ok h
        cases hv
        obtain rfl : rest = [] := eq_nil_of_sequenceFrom hvs
        rfl

/-! ### Texts -/

/-- The values of a text with blanks and another text behind it. -/
theorem sequenceOfText_append {a w b : String} (hne : w ≠ "")
    (hblank : ∀ c ∈ w.toList, Token.isBlank c) {vs : List Value} (ha : sequenceOfText a = .ok vs) :
  sequenceOfText (a ++ w ++ b)
    = ((sequenceOfText b).map (vs ++ ·)).mapError (.shift (a ++ w).utf8ByteSize)
  := by
  have hfront : sequenceFrom none (Token.ofText a.toList) = .ok vs := mapError_eq_ok_iff.1 ha
  have hblanks : w.toList ≠ [] := by
    intro hnil
    exact hne (String.toList_eq_nil_iff.1 hnil)
  simp only [sequenceOfText, sequenceOfTokens, ← byteLength_toList, String.toList_append]
  rw [Token.ofText_append hblanks hblank, sequenceFrom_append hfront, sequenceFrom_move]
  cases sequenceFrom none (Token.ofText b.toList) with
  | ok ws => rfl
  | error e => exact congrArg Except.error (locate_move_add e _ _)

/-- Of two texts with blanks between them, the values are those of the one and then those of the
other, and an error in the second one stands behind the first one and the blanks. A text denotes a
value exactly when, as a sequence, it denotes just this one. -/
theorem sequenceOfText_blank_append :
  (∀ a w b : String, w ≠ "" → (∀ c ∈ w.toList, Token.isBlank c) →
      ∀ vs, sequenceOfText a = .ok vs →
        (∀ ws, sequenceOfText b = .ok ws → sequenceOfText (a ++ w ++ b) = .ok (vs ++ ws))
        ∧ ∀ e, sequenceOfText b = .error e →
          sequenceOfText (a ++ w ++ b) = .error (e.shift (a ++ w).utf8ByteSize))
    ∧ ∀ s v, ofText s = .ok v ↔ sequenceOfText s = .ok [v]
  := by
  constructor
  · intro a w b hne hblank vs ha
    have happend := sequenceOfText_append (b := b) hne hblank ha
    constructor
    · intro ws hb
      rw [happend, hb]
      rfl
    · intro e hb
      rw [happend, hb]
      rfl
  · intro s v
    rw [ofText, sequenceOfText, mapError_eq_ok_iff, mapError_eq_ok_iff, ofTokens_eq_ok_iff]

/-- A list behind a value and two blanks, a character that begins no token there, and the list by
itself. -/
theorem sequenceOfText_blank_append_tab :
  sequenceOfText "1" = .ok [.number (.int 1)]
    ∧ sequenceOfText ("1" ++ " \t" ++ "[2,]") = .ok [.number (.int 1), .list [.number (.int 2)]]
    ∧ sequenceOfText "2 é" = .error ⟨.unexpectedText starts, 2, 4, ['é']⟩
    ∧ sequenceOfText ("1" ++ " \t" ++ "2 é") = .error ⟨.unexpectedText starts, 5, 7, ['é']⟩
    ∧ ofText "[2,]" = .ok (.list [.number (.int 2)])
  := by
  have hone : sequenceOfText "1" = .ok [.number (.int 1)] := by
    rfl
  have hlist : sequenceOfText "[2,]" = .ok [.list [.number (.int 2)]] := by
    rfl
  have herror : sequenceOfText "2 é" = .error ⟨.unexpectedText starts, 2, 4, ['é']⟩ := by
    rfl
  obtain ⟨happend, hvalue⟩ := sequenceOfText_blank_append
  have hbehind := fun b => happend "1" " \t" b (by decide) (by simp [Token.isBlank]) _ hone
  exact ⟨hone, (hbehind "[2,]").1 _ hlist, herror, (hbehind "2 é").2 _ herror,
    (hvalue "[2,]" _).2 hlist⟩

end Value

end Dice
