import Dice.Proofs.Reader.Descent
import Dice.Proofs.Reader.Literal

/-!
# Progress of the reader

The reader comes to the same results and faults as the descent, although it keeps what is open in a
list and makes no calls within calls.
-/

namespace Dice.Value

/-! ### Steps of the reader -/

/-- Reads on after a token, or fails at it. -/
def readOn (outcome : Except ReadError.Cause Progress) (t : Token) (ts : List Token) :
    Except Fault (Value × List Token) :=
  match outcome with
  | .error cause => .error ⟨cause, t⟩
  | .ok (.next state) => readFrom state ts
  | .ok (.done v) => .ok (v, ts)

theorem readFrom_cons_eq (state : State) (t : Token) (ts : List Token) :
  readFrom state (t :: ts) = readOn (state.step t) t ts
  := by
  rw [readFrom]
  rcases state.step t with cause | state | v <;> rfl

/-- What comes behind a value. -/
def behind (v : Value) (pending : List Pending) (ts : List Token) :
    Except Fault (Value × List Token) :=
  match close v pending with
  | .next state => readFrom state ts
  | .done v => .ok (v, ts)

theorem readOn_close (v : Value) (pending : List Pending) (t : Token) (ts : List Token) :
  readOn (.ok (close v pending)) t ts = behind v pending ts
  := by
  unfold behind
  cases close v pending <;> rfl

/-- The end of a list where no comma comes. -/
def closing (vs : List Value) (pending : List Pending) :
    List Token → Except Fault (Value × List Token)
  | [] => .error ⟨.unexpectedToken none [.rightBracket], none⟩
  | t :: ts =>
    if t.kind = .rightBracket then behind (.list vs) pending ts
    else .error ⟨unexpected [.rightBracket] t, t⟩

theorem readFrom_separator {ts : List Token} (h : ts.head?.map Token.kind ≠ some .comma)
    (vs : List Value) (pending : List Pending) :
  readFrom (.separator vs pending) ts = closing vs.reverse pending ts
  := by
  cases ts with
  | nil => rfl
  | cons t ts =>
    rw [readFrom_cons_eq, closing]
    simp only [State.step]
    split <;> rename_i ht
    · exact absurd (congrArg some ht) h
    · rw [if_pos ht, readOn_close]
    · rw [if_neg (by assumption)]
      rfl

theorem readFrom_item_end {ts : List Token}
    (h : ts.head?.map Token.kind = some .rightBracket) (vs : List Value) (pending : List Pending) :
  readFrom (.item vs pending) ts = closing vs.reverse pending ts
  := by
  cases ts with
  | nil => cases h
  | cons t ts =>
    have ht : t.kind = .rightBracket := Option.some.inj h
    rw [readFrom_cons_eq, closing, if_pos ht, ← readOn_close _ _ t]
    simp only [State.step, ht]

/-- Where no list ends, an element is read as a value within the list. -/
theorem readFrom_item_value {ts : List Token}
    (h : ts.head?.map Token.kind ≠ some .rightBracket) (vs : List Value) (pending : List Pending) :
  readFrom (.item vs pending) ts = readFrom (.value (.list vs :: pending)) ts
  := by
  cases ts with
  | nil => rfl
  | cons t ts =>
    apply readFrom_item
    intro ht
    exact h (congrArg some ht)

/-! ### Following the reader -/

namespace Descent

variable {α β : Type}

/-- What comes of a descent, with what comes behind a result, is what comes of a reading. -/
def Follows (p : Descent α) (ts : List Token) (next : α → List Token → Except Fault β)
    (reading : Except Fault β) : Prop :=
  ∀ outcome, p ts = some outcome → outcome.bind (fun (a, rest) => next a rest) = reading

theorem follows_bind {γ : Type} {p : Descent α} {f : α → Descent γ} {ts : List Token}
    {mid : α → List Token → Except Fault β} {next : γ → List Token → Except Fault β}
    {reading : Except Fault β} (hp : p.Follows ts mid reading)
    (hf : ∀ a rest, (f a).Follows rest next (mid a rest)) :
  (p >>= f : Descent γ).Follows ts next reading
  := by
  intro outcome h
  rw [bind_apply] at h
  rcases hfirst : p ts with _ | e | ⟨a, rest⟩
  · rw [hfirst] at h
    cases h
  · rw [hfirst] at h
    cases h
    exact hp _ hfirst
  · rw [hfirst] at h
    exact (hf a rest outcome h).trans (hp _ hfirst)

theorem follows_peek_bind {f : Option Token.Kind → Descent α} {ts : List Token}
    {next : α → List Token → Except Fault β} {reading : Except Fault β}
    (h : (f (ts.head?.map Token.kind)).Follows ts next reading) :
  (peek >>= f : Descent α).Follows ts next reading
  := h

theorem follows_consume_bind {kind : Token.Kind} {t : Token} (ht : t.kind = kind)
    {f : Token → Descent α} {ts : List Token} {next : α → List Token → Except Fault β}
    {reading : Except Fault β} (h : (f t).Follows ts next reading) :
  (consume kind >>= f : Descent α).Follows (t :: ts) next reading
  := by
  intro outcome hbind
  rw [bind_apply, consume_cons ht] at hbind
  exact h outcome hbind

theorem follows_pure (a : α) (ts : List Token) (next : α → List Token → Except Fault β) :
  (pure a : Descent α).Follows ts next (next a ts)
  := by
  intro outcome h
  cases h
  rfl

theorem follows_exhausted (ts : List Token) (next : α → List Token → Except Fault β)
    (reading : Except Fault β) :
  (exhausted : Descent α).Follows ts next reading
  := by
  intro outcome h
  cases h

theorem follows_consume {state : State} {kind : Token.Kind}
    {outcome : Except ReadError.Cause Progress} (h : state.Awaits kind outcome)
    (ts : List Token) :
  (consume kind).Follows ts (readOn outcome) (readFrom state ts)
  := by
  intro r hr
  cases ts with
  | nil =>
    cases hr
    rw [readFrom, State.ended, h.expected_eq]
    rfl
  | cons t ts =>
    rw [readFrom_cons_eq, h.step_eq]
    by_cases ht : t.kind = kind
    · rw [consume_cons ht] at hr
      cases hr
      rw [if_pos ht]
      rfl
    · rw [consume_cons_ne ht] at hr
      cases hr
      rw [if_neg ht]
      rfl

theorem follows_closing (vs : List Value) (pending : List Pending) (ts : List Token) :
  (consume .rightBracket).Follows ts (fun _ => behind (.list vs) pending) (closing vs pending ts)
  := by
  intro r hr
  cases ts with
  | nil =>
    cases hr
    rfl
  | cons t ts =>
    by_cases ht : t.kind = .rightBracket
    · rw [consume_cons ht] at hr
      cases hr
      rw [closing, if_pos ht]
      rfl
    · rw [consume_cons_ne ht] at hr
      cases hr
      rw [closing, if_neg ht]
      rfl

/-- A value is followed wherever the reader stands. -/
def FollowsValue (value : Descent Value) : Prop :=
  ∀ pending ts, value.Follows ts (behind · pending) (readFrom (.value pending) ts)

section

variable {value : Descent Value} (hvalue : value.FollowsValue)

include hvalue

theorem follows_readItems (n : Nat) (vs : List Value) (pending : List Pending) (ts : List Token) :
  (readItems value n).Follows ts (fun ws => closing (vs.reverse ++ ws) pending)
    (readFrom (.item vs pending) ts)
  := by
  induction n generalizing vs ts with
  | zero => exact follows_exhausted _ _ _
  | succ n ih =>
    apply follows_peek_bind
    split <;> rename_i hend
    · rw [readFrom_item_end hend]
      have hnil := follows_pure [] ts fun ws => closing (vs.reverse ++ ws) pending
      rwa [List.append_nil] at hnil
    · rw [readFrom_item_value hend]
      apply follows_bind (hvalue _ _)
      intro v rest
      apply follows_peek_bind
      have hreverse : ∀ ws, vs.reverse ++ v :: ws = (v :: vs).reverse ++ ws := by
        intro ws
        rw [List.reverse_cons, List.append_assoc, List.singleton_append]
      split <;> rename_i hcomma
      · cases rest with
        | nil => cases hcomma
        | cons c rest =>
          have hc : c.kind = .comma := Option.some.inj hcomma
          apply follows_consume_bind hc
          have hnext : behind v (.list vs :: pending) (c :: rest)
              = readFrom (.item (v :: vs) pending) rest := by
            change readFrom (.separator (v :: vs) pending) (c :: rest) = _
            rw [readFrom_cons_eq]
            simp only [State.step, hc]
            rfl
          rw [hnext]
          apply follows_bind (ih (v :: vs) rest)
          intro ws rest
          rw [← hreverse]
          exact follows_pure (v :: ws) rest _
      · change Follows _ _ _ (readFrom (.separator (v :: vs) pending) rest)
        rw [readFrom_separator hcomma, List.reverse_cons]
        exact follows_pure [v] rest _

theorem follows_readList (n : Nat) {t : Token} (ht : t.kind = .leftBracket) (ts : List Token)
    (pending : List Pending) :
  (readList value n).Follows (t :: ts) (behind · pending) (readFrom (.value pending) (t :: ts))
  := by
  apply follows_consume_bind ht
  have hnext : readFrom (.value pending) (t :: ts) = readFrom (.item [] pending) ts := by
    rw [readFrom_cons_eq]
    simp only [State.step, startValue, ht]
    rfl
  rw [hnext]
  apply follows_bind (follows_readItems hvalue n [] pending ts)
  intro vs rest
  apply follows_bind (follows_closing vs pending rest)
  intro r rest
  exact follows_pure (Value.list vs) rest _

theorem follows_readDie {t : Token} (ht : t.kind = .leftBrace) (ts : List Token)
    (pending : List Pending) :
  (readDie value).Follows (t :: ts) (behind · pending) (readFrom (.value pending) (t :: ts))
  := by
  apply follows_consume_bind ht
  have hnext : readFrom (.value pending) (t :: ts) = readFrom (.word pending) ts := by
    rw [readFrom_cons_eq]
    simp only [State.step, startValue, ht]
    rfl
  rw [hnext]
  apply follows_bind (follows_consume (awaits_word pending) ts)
  intro w rest
  apply follows_bind (follows_consume (awaits_wordComma pending) rest)
  intro c rest
  apply follows_bind (hvalue _ rest)
  intro x rest
  apply follows_bind (follows_consume (awaits_outcomeComma x pending) rest)
  intro d rest
  apply follows_bind (hvalue _ rest)
  intro f rest
  apply follows_bind (follows_consume (awaits_brace x f pending) rest)
  intro r rest
  unfold put
  cases Die.ofValues x f with
  | ok d =>
    rw [readOn_close]
    exact follows_pure d.toValue rest _
  | error why =>
    intro outcome h
    cases h
    rfl

end

theorem follows_denoted (t : Token) (x? : Bool → List Char → Option Number) (negative : Bool)
    (ts : List Token) (pending : List Pending) :
  (denoted t (x? negative t.chars)).Follows ts (behind · pending)
    (readOn (closeNumeral negative x? t pending) t ts)
  := by
  unfold closeNumeral
  cases x? negative t.chars with
  | some x =>
    simp only [readOn_close]
    exact follows_pure (Value.number x) ts _
  | none =>
    intro outcome h
    cases h
    rfl

/-- A numeral is followed where the reader makes its number of it, and takes no other token. -/
theorem follows_readNumeral {negative : Bool} {state : State} {pending : List Pending} {t : Token}
    (hinteger : t.kind = .integer → state.step t = closeNumeral negative ofInteger? t pending)
    (hdecimal : t.kind = .decimal → state.step t = closeNumeral negative ofDecimal? t pending)
    (hother : ¬ t.kind.IsNumeral → state.step t = .error (unexpected [.integer, .decimal] t))
    (ts : List Token) :
  (readNumeral negative).Follows (t :: ts) (behind · pending) (readFrom state (t :: ts))
  := by
  rw [readFrom_cons_eq]
  apply follows_peek_bind
  split
  · rename_i hkind
    have ht := Option.some.inj hkind
    rw [hinteger ht]
    exact follows_consume_bind ht (follows_denoted t ofInteger? negative ts pending)
  · rename_i hkind
    have ht := Option.some.inj hkind
    rw [hdecimal ht]
    exact follows_consume_bind ht (follows_denoted t ofDecimal? negative ts pending)
  · rename_i hinteger hdecimal
    rw [hother]
    · intro outcome h
      cases h
      rfl
    · rintro (ht | ht)
      · exact hinteger (congrArg some ht)
      · exact hdecimal (congrArg some ht)

/-- The numeral behind a minus sign. -/
theorem follows_readNumeral_minus (pending : List Pending) (ts : List Token) :
  (readNumeral true).Follows ts (behind · pending) (readFrom (.numeral pending) ts)
  := by
  cases ts with
  | nil =>
    intro outcome h
    cases h
    rfl
  | cons t ts =>
    apply follows_readNumeral
    · intro ht
      simp only [State.step, ht]
    · intro ht
      simp only [State.step, ht]
    · intro ht
      simp only [State.step]
      split <;> rename_i hkind
      · exact absurd (.inl hkind) ht
      · exact absurd (.inr hkind) ht
      · rfl

/-- A value is followed, in whatever calls within calls. -/
theorem followsValue_readValue (n : Nat) :
  (readValue n).FollowsValue
  := by
  induction n with
  | zero =>
    intro pending ts
    exact follows_exhausted _ _ _
  | succ n ih =>
    intro pending ts
    apply follows_peek_bind
    cases ts with
    | nil =>
      intro outcome h
      cases h
      rfl
    | cons t ts =>
      rw [List.head?_cons, Option.map_some]
      cases ht : t.kind with
      | minus =>
        apply follows_consume_bind ht
        have hnext : readFrom (.value pending) (t :: ts) = readFrom (.numeral pending) ts := by
          rw [readFrom_cons_eq]
          simp only [State.step, startValue, ht]
          rfl
        rw [hnext]
        exact follows_readNumeral_minus pending ts
      | integer | decimal =>
        apply follows_readNumeral
        all_goals simp [State.step, startValue, ht, Token.Kind.IsNumeral]
      | leftBracket => exact follows_readList ih n ht ts pending
      | leftBrace => exact follows_readDie ih ht ts pending
      | _ =>
        intro outcome h
        cases h
        rw [readFrom_cons_eq]
        simp only [State.step, startValue, ht]
        rfl

end Descent

/-! ### Progress -/

open Descent

/-- With more calls within calls than there are tokens, the descent comes to what is read. -/
theorem readValue_eq_read {n : Nat} {ts : List Token} (h : ts.length < n) :
  readValue n ts = some (read ts)
  := by
  have hends := (progresses_readValue n).ends ts h
  obtain ⟨outcome, houtcome⟩ := Option.ne_none_iff_exists'.1 hends
  have hfollows := followsValue_readValue n [] ts outcome houtcome
  rw [houtcome, read, ← hfollows]
  cases outcome <;> rfl

/-- Before a proper suffix there is at least one token. -/
theorem exists_front {ts rest : List Token}
    (h : rest <:+ ts ∧ rest.length + 1 ≤ ts.length) :
  ∃ front, front ≠ [] ∧ ts = front ++ rest
  := by
  obtain ⟨⟨front, rfl⟩, hlength⟩ := h
  refine ⟨front, ?_, rfl⟩
  rintro rfl
  rw [List.nil_append] at hlength
  omega

/-- A value that is read leaves a proper suffix of the tokens. -/
theorem suffix_of_read {ts rest : List Token} {v : Value} (h : read ts = .ok (v, rest)) :
  rest <:+ ts ∧ rest.length + 1 ≤ ts.length
  := by
  apply (progresses_readValue (ts.length + 1)).takes ts v rest
  rw [readValue_eq_read (Nat.lt_succ_self _), h]

/-- With more rounds than there are tokens, the descent comes to the values one after another. -/
theorem readSequence_eq {m n : Nat} {ts : List Token} (hts : ts.length < m) (hle : m ≤ n) :
  readSequence (readValue n) m ts = some ((sequenceOfTokens ts).map fun vs => (vs, []))
  := by
  induction m generalizing ts with
  | zero => cases hts
  | succ m ih =>
    cases ts with
    | nil => rfl
    | cons t ts =>
      have hnext : readSequence (readValue n) (m + 1) (t :: ts)
          = (readValue n >>= fun v => do return v :: (← readSequence (readValue n) m)) (t :: ts) :=
        rfl
      rw [hnext, bind_apply, readValue_eq_read (Nat.lt_of_lt_of_le hts hle), sequenceOfTokens,
        sequenceFrom_none_cons, sequenceFrom_some]
      cases hread : read (t :: ts) with
      | error e =>
        rw [read] at hread
        rw [hread]
        rfl
      | ok p =>
        obtain ⟨v, rest⟩ := p
        have hrest : rest.length < m := by
          have hlength := (suffix_of_read hread).2
          omega
        rw [read] at hread
        rw [hread]
        change (readSequence (readValue n) m >>= _ : Descent (List Value)) rest = _
        rw [bind_apply, ih hrest (Nat.le_of_succ_le hle), sequenceOfTokens]
        change _ = some (((sequenceFrom none rest).map (v :: ·)).map fun vs => (vs, []))
        cases sequenceFrom none rest <;> rfl

/-- There are no more values than tokens. -/
theorem length_le_of_sequenceFrom {state? : Option State} {ts : List Token} {vs : List Value}
    (h : sequenceFrom state? ts = .ok vs) :
  vs.length ≤ ts.length
  := by
  induction ts generalizing state? vs with
  | nil =>
    cases state? with
    | none =>
      cases h
      exact Nat.le_refl 0
    | some state => cases h
  | cons t ts ih =>
    rw [sequenceFrom_cons] at h
    rcases hstep : (state?.getD (.value [])).step t with cause | state | v
    · rw [hstep] at h
      cases h
    · rw [hstep] at h
      exact (ih h).trans (Nat.le_succ _)
    · rw [hstep] at h
      obtain ⟨ws, hrest, rfl⟩ := exists_of_map_eq_ok h
      exact Nat.succ_le_succ (ih hrest)

/-- Wherever the descent comes to a value, a list, a die or a numeral, it has taken at least one
token, and what is left are the other tokens. With more calls within calls and more rounds than
there are tokens, it ends on any tokens, and comes to what the reader comes to. A text denotes no
more values one after another than it has tokens. -/
theorem reader_progresses :
  (∀ n ts v rest,
      readValue n ts = some (.ok (v, rest))
        ∨ readList (readValue n) n ts = some (.ok (v, rest))
        ∨ readDie (readValue n) ts = some (.ok (v, rest))
        ∨ (∃ negative, readNumeral negative ts = some (.ok (v, rest))) →
      ∃ front, front ≠ [] ∧ ts = front ++ rest)
    ∧ (∀ n (ts : List Token), ts.length < n →
        readValue n ts = some (read ts)
          ∧ (readItems (readValue n) n ts).isSome
          ∧ (readList (readValue n) n ts).isSome
          ∧ (readDie (readValue n) ts).isSome
          ∧ (∀ negative, (readNumeral negative ts).isSome)
          ∧ readSequence (readValue n) n ts
            = some ((sequenceOfTokens ts).map fun vs => (vs, [])))
    ∧ ∀ text vs, sequenceOfText text = .ok vs → vs.length ≤ (Token.ofText text.toList).length
  := by
  refine ⟨?_, ?_, ?_⟩
  · intro n ts v rest h
    have hvalue := progresses_readValue n
    rcases h with h | h | h | ⟨negative, h⟩
    · exact exists_front (hvalue.takes ts v rest h)
    · exact exists_front ((progresses_readList hvalue).takes ts v rest h)
    · exact exists_front ((progresses_readDie hvalue).takes ts v rest h)
    · exact exists_front ((progresses_readNumeral n negative).takes ts v rest h)
  · intro n ts hts
    have hvalue := progresses_readValue n
    have hmore : ts.length < n + 1 := Nat.lt_succ_of_lt hts
    refine ⟨readValue_eq_read hts, ?_, ?_, ?_, ?_, readSequence_eq hts (Nat.le_refl n)⟩
    · exact Option.isSome_iff_ne_none.2
        ((progresses_readItems hvalue (Nat.le_refl n)).ends ts hts)
    · exact Option.isSome_iff_ne_none.2 ((progresses_readList hvalue).ends ts hmore)
    · exact Option.isSome_iff_ne_none.2 ((progresses_readDie hvalue).ends ts hmore)
    · intro negative
      exact Option.isSome_iff_ne_none.2 ((progresses_readNumeral n negative).ends ts hts)
  · intro text vs h
    exact length_le_of_sequenceFrom (mapError_eq_ok_iff.1 h)

/-- The tokens of a list with an element and a comma behind it, and of a number behind the list. -/
def behindComma : List Token :=
  Token.ofText "[-1,] 2".toList

/-- The list takes five tokens, which are read in seven calls within calls, and there are two values
of six tokens. -/
theorem reader_progresses_comma :
  (readValue 7 behindComma = some (.ok (.list [.number (.int (-1))], [⟨.integer, ['2'], 6⟩]))
      ∧ behindComma.length < 7
      ∧ sequenceOfText "[-1,] 2" = .ok [.list [.number (.int (-1))], .number (.int 2)])
    ∧ (∃ front, front ≠ [] ∧ behindComma = front ++ [⟨.integer, ['2'], 6⟩])
    ∧ readValue 7 behindComma = some (read behindComma)
    ∧ [Value.list [.number (.int (-1))], .number (.int 2)].length
      ≤ (Token.ofText "[-1,] 2".toList).length
  := by
  have hlength : behindComma.length < 7 := by
    decide
  have hvalue : readValue 7 behindComma
      = some (.ok (.list [.number (.int (-1))], [⟨.integer, ['2'], 6⟩])) := by
    rw [readValue_eq_read hlength]
    rfl
  have hvalues : sequenceOfText "[-1,] 2"
      = .ok [.list [.number (.int (-1))], .number (.int 2)] := by
    rfl
  obtain ⟨htakes, hends, hcount⟩ := reader_progresses
  exact ⟨⟨hvalue, hlength, hvalues⟩, htakes 7 _ _ _ (.inl hvalue), (hends 7 _ hlength).1,
    hcount _ _ hvalues⟩

end Dice.Value
