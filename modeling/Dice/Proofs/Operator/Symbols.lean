import Dice.Proofs.Reader.Sequence
import Dice.Script

/-!
# Symbols of operators

An operator is read from its symbol, from a shorthand for it, and from nothing else. All other texts
are refused as they stand. Where a text is cut to find the comparator in it, it is cut between two
characters, so that what is read are whole characters on both sides.
-/

namespace Dice

/-! ### Comparators -/

/-- A comparator is found by its symbol, and by no other text. -/
theorem Comparator.ofSymbol?_eq_some_iff {s : String} {cmp : Comparator} :
  ofSymbol? s = some cmp ↔ s = cmp.symbol
  := by
  constructor
  · intro h
    have hfound := List.find?_some h
    exact (beq_iff_eq.1 hfound).symm
  · rintro rfl
    cases cmp <;> rfl

namespace Operator

theorem comparator?_eq_some_iff {cs : List Char} {cmp : Comparator} :
  comparator? cs = some cmp ↔ cs = cmp.symbol.toList
  := by
  rw [comparator?, Comparator.ofSymbol?_eq_some_iff, ← String.toList_inj, String.toList_ofList]

/-- Behind a way to redraw there is a comparator, or nothing in the place of equality. -/
theorem redrawComparator?_eq_some_iff {cs : List Char} {cmp : Comparator} :
  redrawComparator? cs = some cmp ↔ cs = cmp.symbol.toList ∨ (cs = [] ∧ cmp = .eq)
  := by
  cases cs with
  | nil => cases cmp <;> decide
  | cons c cs => simp [redrawComparator?, comparator?_eq_some_iff]

/-! ### Symbols and shorthands -/

/-- The shorthands of operators: one for keeping the highest elements, and the ways to redraw
without a comparator, which stand for equality. -/
def shorthands : List (String × Operator) :=
  [("k", ranked .keep .highest), ("r", redraw ⟨false, false⟩ .eq), ("rr", redraw ⟨false, true⟩ .eq),
    ("x", redraw ⟨true, false⟩ .eq), ("xr", redraw ⟨true, true⟩ .eq)]

/-- An operator is written as a text: its symbol, or a shorthand for it. -/
def Written (op : Operator) (s : String) : Prop :=
  s = op.symbol ∨ (s, op) ∈ shorthands

instance (op : Operator) (s : String) : Decidable (op.Written s) :=
  inferInstanceAs (Decidable (_ ∨ _))

theorem ofChars?_of_written {op : Operator} {s : String} (h : op.Written s) :
  ofChars? s.toList = some op
  := by
  rcases h with rfl | h
  · cases op with
    | roll => rfl
    | rollUntil cmp => cases cmp <;> rfl
    | redraw how cmp =>
      obtain ⟨keeps, recursive⟩ := how
      cases keeps <;> cases recursive <;> cases cmp <;> rfl
    | ranked action rank => cases action <;> cases rank <;> rfl
    | filtered action cmp => cases action <;> cases cmp <;> rfl
  · simp only [shorthands, List.mem_cons, Prod.mk.injEq, List.not_mem_nil, or_false] at h
    rcases h with ⟨rfl, rfl⟩ | ⟨rfl, rfl⟩ | ⟨rfl, rfl⟩ | ⟨rfl, rfl⟩ | ⟨rfl, rfl⟩ <;> rfl

/-! ### Letters and comparators -/

/-- A text is cut behind characters of as many bytes. -/
theorem splitAt?_append (letters rest : List Char) :
  splitAt? (byteLength letters) (letters ++ rest) = some (letters, rest)
  := by
  induction letters with
  | nil => cases rest <;> rfl
  | cons c letters ih =>
    have hpos := c.utf8Size_pos
    rw [List.cons_append, byteLength, splitAt?]
    · rw [if_pos (Nat.le_add_right _ _), Nat.add_sub_cancel_left, ih]
      rfl
    · omega

/-- The byte at which a text is cut lies between characters. -/
theorem exists_cut (cs : List Char) :
  ∃ letters rest, cs = letters ++ rest ∧ byteLength letters = cut cs
  := by
  unfold cut
  split
  · exact ⟨['x', 'r'], _, rfl, rfl⟩
  · exact ⟨['r', 'r'], _, rfl, rfl⟩
  · exact ⟨[_], _, rfl, rfl⟩
  · exact ⟨[], [], rfl, rfl⟩

/-- A text is read as a word without a comparator, or else by the two parts it is cut into. -/
theorem ofChars?_cut (cs : List Char) :
  ∃ letters rest, cs = letters ++ rest ∧ byteLength letters = cut cs
    ∧ splitAt? (cut cs) cs = some (letters, rest)
    ∧ ofChars? cs = (ofWord? cs).or (ofParts? letters rest)
  := by
  obtain ⟨letters, rest, heq, hcut⟩ := exists_cut cs
  have hsplit : splitAt? (cut cs) cs = some (letters, rest) := by
    rw [← hcut, heq, splitAt?_append]
  refine ⟨letters, rest, heq, hcut, hsplit, ?_⟩
  rw [ofChars?, hsplit]
  rfl

theorem written_of_ofWord? {op : Operator} {cs : List Char} (h : ofWord? cs = some op) :
  op.Written (.ofList cs)
  := by
  unfold ofWord? at h
  split at h <;> cases h
  case h_2 =>
    right
    exact List.mem_cons_self
  all_goals
    left
    rfl

section

variable {op : Operator} {letters cs : List Char}

/-- Letters of a redraw are written before a comparator, or alone. -/
theorem written_redraw {how : Redraw} (hletters : .ofList letters = how.symbol)
    (h : (redrawComparator? cs).map (redraw how) = some op) :
  op.Written (.ofList letters ++ .ofList cs)
  := by
  obtain ⟨cmp, hcmp, rfl⟩ := Option.map_eq_some_iff.1 h
  rw [hletters]
  rcases redrawComparator?_eq_some_iff.1 hcmp with rfl | ⟨rfl, rfl⟩
  · left
    rw [String.ofList_toList, symbol]
  · right
    obtain ⟨keeps, recursive⟩ := how
    cases keeps <;> cases recursive <;> decide

/-- Other letters are written before a comparator. -/
theorem written_compared {make : Comparator → Operator}
    (hletters : ∀ cmp, (make cmp).symbol = .ofList letters ++ cmp.symbol)
    (h : (comparator? cs).map make = some op) :
  op.Written (.ofList letters ++ .ofList cs)
  := by
  obtain ⟨cmp, hcmp, rfl⟩ := Option.map_eq_some_iff.1 h
  left
  rw [comparator?_eq_some_iff.1 hcmp, String.ofList_toList, hletters]

theorem written_of_ofParts? (h : ofParts? letters cs = some op) :
  op.Written (.ofList letters ++ .ofList cs)
  := by
  unfold ofParts? at h
  split at h
  · exact written_redraw rfl h
  · exact written_redraw rfl h
  · exact written_redraw rfl h
  · exact written_redraw rfl h
  · exact written_compared (fun _ => rfl) h
  · exact written_compared (fun _ => rfl) h
  · exact written_compared (fun _ => rfl) h
  · cases h

end

theorem written_of_ofChars? {op : Operator} {cs : List Char} (h : ofChars? cs = some op) :
  op.Written (.ofList cs)
  := by
  obtain ⟨letters, rest, heq, -, -, hread⟩ := ofChars?_cut cs
  rw [hread, Option.or_eq_some_iff] at h
  rcases h with hword | ⟨-, hparts⟩
  · exact written_of_ofWord? hword
  · rw [heq, String.ofList_append]
    exact written_of_ofParts? hparts

/-! ### Reading symbols -/

theorem ofSymbol?_eq_some_iff {s : String} {op : Operator} :
  ofSymbol? s = some op ↔ op.Written s
  := by
  constructor
  · intro h
    have hwritten := written_of_ofChars? h
    rwa [String.ofList_toList] at hwritten
  · exact ofChars?_of_written

section

variable {ρ : Type} (s : String) (ctx : Context ρ)

theorem operator_apply :
  Play.operator s ctx
    = match ofSymbol? s with
      | some op => .ok op ctx
      | none => .error (.unknownOperator s) ctx
  := by
  unfold Play.operator
  cases ofSymbol? s <;> rfl

theorem operator_eq_ok_iff (op : Operator) :
  Play.operator s ctx = .ok op ctx ↔ op.Written s
  := by
  rw [← ofSymbol?_eq_some_iff, operator_apply]
  cases ofSymbol? s <;> simp

/-- A text that no operator is written as is refused as it stands. -/
theorem operator_eq_error_iff :
  Play.operator s ctx = .error (.unknownOperator s) ctx ↔ ∀ op : Operator, ¬ op.Written s
  := by
  simp only [← ofSymbol?_eq_some_iff]
  rw [operator_apply]
  cases ofSymbol? s <;> simp

end

/-- No text is written for two operators. -/
theorem Written.unique {s : String} {op op' : Operator} (h : op.Written s) (h' : op'.Written s) :
  op = op'
  := by
  apply Option.some.inj
  rw [← ofSymbol?_eq_some_iff.2 h, ofSymbol?_eq_some_iff.2 h']

/-- A text is cut at the boundary of two characters, or at an end, and read by the two parts. -/
theorem ofSymbol?_splits (s : String) :
  ∃ (p : s.Pos) (letters rest : String), p.Splits letters rest ∧ p.offset.byteIdx = cut s.toList
    ∧ splitAt? (cut s.toList) s.toList = some (letters.toList, rest.toList)
    ∧ ofSymbol? s = (ofWord? s.toList).or (ofParts? letters.toList rest.toList)
  := by
  obtain ⟨letters, rest, heq, hcut, hsplit, hread⟩ := ofChars?_cut s.toList
  have happend : s = .ofList letters ++ .ofList rest := by
    rw [← String.ofList_append, ← heq, String.ofList_toList]
  have hvalid : (String.ofList letters).rawEndPos.IsValid s :=
    String.Pos.Raw.isValid_iff_exists_append.2 ⟨_, _, happend, rfl⟩
  refine ⟨⟨_, hvalid⟩, .ofList letters, .ofList rest, ⟨happend, rfl⟩, ?_, ?_⟩
  · rw [← hcut, ← utf8ByteSize_ofList]
    rfl
  · rw [String.toList_ofList, String.toList_ofList]
    exact ⟨hsplit, hread⟩

/-- A text denotes an operator exactly when it is the symbol of the operator, or one of the
shorthands for it, and any other text is refused, as an unknown operator with this text. To find a
comparator in it, a text is only ever cut between characters. So no text is written for two
operators, and every operator is read from its symbol. -/
theorem ofSymbol_exact :
  (∀ s op, ofSymbol? s = some op ↔ s = op.symbol ∨ (s, op) ∈ shorthands)
    ∧ (∀ {ρ : Type} (s : String) (ctx : Context ρ),
        (∀ op, Play.operator s ctx = .ok op ctx ↔ op.Written s)
          ∧ (Play.operator s ctx = .error (.unknownOperator s) ctx
            ↔ ∀ op : Operator, ¬ op.Written s))
    ∧ (∀ s : String, ∃ (p : s.Pos) (letters rest : String), p.Splits letters rest
        ∧ p.offset.byteIdx = cut s.toList
        ∧ splitAt? (cut s.toList) s.toList = some (letters.toList, rest.toList)
        ∧ ofSymbol? s = (ofWord? s.toList).or (ofParts? letters.toList rest.toList))
    ∧ (∀ s (op op' : Operator), op.Written s → op'.Written s → op = op')
    ∧ ∀ op : Operator, ofSymbol? op.symbol = some op
  := by
  refine ⟨?_, ?_, ofSymbol?_splits, ?_, ?_⟩
  · intro s op
    exact ofSymbol?_eq_some_iff
  · intro ρ s ctx
    exact ⟨operator_eq_ok_iff s ctx, operator_eq_error_iff s ctx⟩
  · intro s op op' h h'
    exact h.unique h'
  · intro op
    exact ofSymbol?_eq_some_iff.2 (.inl rfl)

/-- The shorthand for drawing anew as long as the draws are equal denotes only the operator with the
symbol, and a character of two bytes is not cut. -/
theorem ofSymbol_exact_shorthand :
  ((redraw ⟨true, true⟩ .eq).Written "xr" ∧ ((ofSymbol? "xr").getD roll).Written "xr")
    ∧ (ofSymbol? "xr").getD roll = redraw ⟨true, true⟩ .eq
    ∧ (redraw ⟨true, true⟩ .eq).symbol = "xr="
    ∧ cut "ü=".toList = 2 ∧ ofSymbol? "ü=" = none
  := by
  have hshort : (redraw ⟨true, true⟩ .eq).Written "xr" := by
    decide
  have hread : ((ofSymbol? "xr").getD roll).Written "xr" := by
    decide
  obtain ⟨-, -, -, hunique, -⟩ := ofSymbol_exact
  exact ⟨⟨hshort, hread⟩, hunique "xr" _ _ hread hshort, rfl, by decide, by decide⟩

end Operator

end Dice
