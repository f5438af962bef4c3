import Dice.Proofs.Reader.Sequence

/-!
# Spans

The tokens of a text lie in it one behind another, each where its characters stand, and there are
only blanks between them. So an error at a token, or at the end, names a part of the text by whole
characters, and shows just this part.
-/

namespace Dice

/-! ### Tokens in a text -/

namespace Token

/-- Some tokens lie in a text that starts at a byte. -/
inductive Laid : Nat → List Char → List Token → Prop
  | nil {start : Nat} : Laid start [] []
  | blank {start : Nat} {c : Char} {cs : List Char} {ts : List Token} :
    isBlank c → Laid (start + c.utf8Size) cs ts → Laid start (c :: cs) ts
  | token {t : Token} {rest : List Char} {ts : List Token} :
    Laid t.stop rest ts → Laid t.start (t.chars ++ rest) (t :: ts)

/-- The tokens of a text lie in it, behind what is passed over. -/
theorem laid_scan (start skip : Nat) (cs : List Char) :
  Laid (start + byteLength (cs.take skip)) (cs.drop skip) (scan start skip cs)
  := by
  induction cs generalizing start skip with
  | nil => cases skip <;> exact .nil
  | cons c cs ih =>
    cases skip with
    | succ skip =>
      rw [List.take_succ_cons, List.drop_succ_cons, byteLength_cons, ← Nat.add_assoc]
      exact ih _ _
    | zero =>
      rw [scan]
      split
      · rename_i hblank
        exact .blank hblank (ih _ 0)
      · have htoken := ih (start + c.utf8Size) (longest c cs).2
        rw [Nat.add_assoc, ← byteLength_cons] at htoken
        have hlaid := Laid.token (t := ⟨(longest c cs).1, c :: cs.take (longest c cs).2, start⟩)
          htoken
        rw [List.cons_append, List.take_append_drop] at hlaid
        exact hlaid

theorem laid_ofText (cs : List Char) :
  Laid 0 cs (ofText cs)
  := laid_scan 0 0 cs

section

variable {start : Nat} {cs : List Char} {ts : List Token}

/-- A token starts behind the bytes of what is before its characters. -/
theorem Laid.exists_append (h : Laid start cs ts) {t : Token} (ht : t ∈ ts) :
  ∃ before after, cs = before ++ t.chars ++ after ∧ t.start = start + byteLength before
  := by
  induction h with
  | nil => cases ht
  | blank _ _ ih =>
    obtain ⟨before, after, rfl, hstart⟩ := ih ht
    exact ⟨_ :: before, after, rfl, by rw [hstart, byteLength_cons, Nat.add_assoc]⟩
  | @token u _ _ _ ih =>
    rcases List.mem_cons.1 ht with rfl | ht
    · exact ⟨[], _, rfl, rfl⟩
    · obtain ⟨before, after, rfl, hstart⟩ := ih ht
      refine ⟨u.chars ++ before, after, ?_, ?_⟩
      · rw [List.append_assoc, List.append_assoc, List.append_assoc]
      · rw [hstart, stop, byteLength_append, Nat.add_assoc]

/-- A token does not start before the text. -/
theorem Laid.start_le (h : Laid start cs ts) {t : Token} (ht : t ∈ ts) :
  start ≤ t.start
  := by
  obtain ⟨before, after, -, hstart⟩ := h.exists_append ht
  rw [hstart]
  exact Nat.le_add_right _ _

/-- A token does not stop behind the text. -/
theorem Laid.stop_le (h : Laid start cs ts) {t : Token} (ht : t ∈ ts) :
  t.stop ≤ start + byteLength cs
  := by
  obtain ⟨before, after, rfl, hstart⟩ := h.exists_append ht
  rw [stop, hstart, byteLength_append, byteLength_append]
  omega

/-- A token stops before those behind it start. -/
theorem Laid.pairwise (h : Laid start cs ts) :
  ts.Pairwise fun t u => t.stop ≤ u.start
  := by
  induction h with
  | nil => exact .nil
  | blank _ _ ih => exact ih
  | token hrest ih => exact .cons (fun u hu => hrest.start_le hu) ih

end

end Token

/-! ### Errors in a text -/

/-- An error lies within a text: the part from its start to its stop is its slice. -/
def ReadError.Within (e : ReadError) (text : String) : Prop :=
  ∃ before after, text = before ++ .ofList e.slice ++ after
    ∧ e.start = before.utf8ByteSize ∧ e.stop = (before ++ .ofList e.slice).utf8ByteSize

namespace Value

/-- A fault at a token of a text, or at its end, lies within the text. -/
theorem within_locate {e : Fault} {text : String}
    (h : ∀ t ∈ e.token, t ∈ Token.ofText text.toList) :
  (e.locate text.toList).Within text
  := by
  obtain ⟨cause, token⟩ := e
  cases token with
  | none =>
    have hslice : text ++ .ofList [] = text := String.append_empty
    refine ⟨text, "", ?_, byteLength_toList text, ?_⟩
    · exact (String.append_empty.trans hslice).symm
    · exact (byteLength_toList text).trans (congrArg String.utf8ByteSize hslice).symm
  | some t =>
    obtain ⟨before, after, htext, hstart⟩ := (Token.laid_ofText _).exists_append (h t rfl)
    rw [Nat.zero_add] at hstart
    refine ⟨.ofList before, .ofList after, ?_, ?_, ?_⟩
    · rw [← String.ofList_toList (s := text), htext, String.ofList_append, String.ofList_append]
      rfl
    · rw [utf8ByteSize_ofList]
      exact hstart
    · rw [← String.ofList_append, utf8ByteSize_ofList, byteLength_append, ← hstart]
      rfl

/-- The token of a fault is one of those that are read. -/
theorem mem_of_sequenceFrom {state? : Option State} {ts : List Token} {e : Fault}
    (h : sequenceFrom state? ts = .error e) :
  ∀ t ∈ e.token, t ∈ ts
  := by
  induction ts generalizing state? e with
  | nil =>
    intro t ht
    cases state? with
    | none => cases h
    | some state =>
      cases h
      cases ht
  | cons u ts ih =>
    intro t ht
    rw [sequenceFrom] at h
    split at h
    · cases h
      cases ht
      exact List.mem_cons_self
    · exact List.mem_cons_of_mem u (ih h t ht)
    · split at h
      · rename_i hrest
        cases h
        exact List.mem_cons_of_mem u (ih hrest t ht)
      · cases h

theorem mem_of_readFrom {state : State} {ts : List Token} {e : Fault}
    (h : readFrom state ts = .error e) :
  ∀ t ∈ e.token, t ∈ ts
  := by
  have hsequence : sequenceFrom (some state) ts = .error e := by
    rw [sequenceFrom_some, h]
    rfl
  exact mem_of_sequenceFrom hsequence

/-- A value that is read ends somewhere in the tokens, and is read from those up to there alone. -/
theorem exists_of_readFrom {state : State} {ts rest : List Token} {v : Value}
    (h : readFrom state ts = .ok (v, rest)) :
  ∃ front, ts = front ++ rest ∧ readFrom state front = .ok (v, [])
  := by
  induction ts generalizing state with
  | nil => cases h
  | cons t ts ih =>
    rw [readFrom] at h
    split at h
    · cases h
    · rename_i hstep
      obtain ⟨front, rfl, hfront⟩ := ih h
      refine ⟨t :: front, rfl, ?_⟩
      rw [readFrom, hstep]
      exact hfront
    · rename_i hstep
      cases h
      refine ⟨[t], rfl, ?_⟩
      rw [readFrom, hstep]

theorem mem_of_ofTokens {ts : List Token} {e : Fault} (h : ofTokens ts = .error e) :
  ∀ t ∈ e.token, t ∈ ts
  := by
  rw [ofTokens] at h
  split at h
  · rename_i hread
    cases h
    exact mem_of_readFrom hread
  · cases h
  · rename_i hread
    cases h
    obtain ⟨front, rfl, -⟩ := exists_of_readFrom hread
    intro t ht
    cases ht
    exact List.mem_append_right front List.mem_cons_self

/-- Every error lies within the text. -/
theorem within_of_error {text : String} {e : ReadError}
    (h : ofText text = .error e ∨ sequenceOfText text = .error e) :
  e.Within text
  := by
  rcases h with h | h
  · obtain ⟨fault, hfault, rfl⟩ := exists_of_mapError_eq_error h
    exact within_locate (mem_of_ofTokens hfault)
  · obtain ⟨fault, hfault, rfl⟩ := exists_of_mapError_eq_error h
    exact within_locate (mem_of_sequenceFrom hfault)

end Value

end Dice
