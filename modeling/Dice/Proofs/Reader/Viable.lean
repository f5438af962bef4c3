import Dice.Proofs.Reader.Continuation
import Dice.Proofs.Reader.Spans

/-!
# Where reading stops

Reading stops at the first token with which there is no sentence, or at the end of the tokens if
they are none. It suggests only what a sentence goes on with, and nothing exactly where the tokens
before are a sentence.
-/

namespace Dice

/-- An error where other tokens are expected stands behind the tokens `before` of a text, at the
first of `rest` or at the end of the text if there is none. The tokens before it begin a sentence,
and none with the first of `rest`; at the end, they are not a sentence. They go on with each of the
expected kinds, and where there is none of these, they are a value. -/
structure ReadError.Refuses (e : ReadError) (text : String) (expected : List Token.Kind)
    (before rest : List Token) : Prop where
  tokens : Token.ofText text.toList = before ++ rest
  stop_le : ∀ t ∈ before, t.stop ≤ e.start
  le_start : ∀ t ∈ rest, e.start ≤ t.start
  viable : Viable (before.map Token.kind)
  ended : rest = [] →
    e = ⟨.unexpectedToken none expected, text.utf8ByteSize, text.utf8ByteSize, []⟩
      ∧ before.map Token.kind ∉ sentences
  found : ∀ t ∈ rest.head?, e = ⟨Value.unexpected expected t, t.start, t.stop, t.chars⟩
    ∧ ¬ Viable ((before ++ [t]).map Token.kind)
  suggested : ∀ k ∈ expected, Viable (before.map Token.kind ++ [k])
  complete : expected = [] → before.map Token.kind ∈ sentences ∧ ∃ v, Value.ofTokens before = .ok v

namespace Value

/-! ### What has been read -/

/-- Some tokens lead from a state to what has come about: behind them, the continuations are those
of the latter. -/
def State.Leads (state : State) (front : List Token) (progress : Progress) : Prop :=
  ∀ ks, front.map Token.kind ++ ks ∈ state.continuations ↔ ks ∈ progress.continuations

theorem leads_nil (state : State) :
  state.Leads [] (.next state)
  := fun _ => Iff.rfl

theorem leads_cons {state next : State} {t : Token} {front : List Token} {progress : Progress}
    (hstep : state.step t = .ok (.next next)) (h : next.Leads front progress) :
  state.Leads (t :: front) progress
  := by
  have htells := foretells_step state t
  rw [hstep] at htells
  intro ks
  rw [List.map_cons, List.cons_append, htells]
  exact h ks

section

variable {front : List Token} {progress : Progress}

/-- What the first tokens of a text lead to tells what goes on a sentence behind them. -/
theorem State.Leads.append_mem_iff (h : (State.value []).Leads front progress)
    (ks : List Token.Kind) :
  front.map Token.kind ++ ks ∈ sentences ↔ ks ∈ progress.continuations
  := by
  have hsentences : (State.value []).continuations = sentences := mul_one sentences
  rw [← h ks, hsentences]

theorem State.Leads.viable_iff (h : (State.value []).Leads front progress)
    (ks : List Token.Kind) :
  Viable (front.map Token.kind ++ ks) ↔ ∃ more, ks ++ more ∈ progress.continuations
  := by
  simp only [Viable, List.append_assoc, h.append_mem_iff]

theorem State.Leads.mem_iff (h : (State.value []).Leads front progress) :
  front.map Token.kind ∈ sentences ↔ [] ∈ progress.continuations
  := by
  rw [← h.append_mem_iff, List.append_nil]

end

/-! ### Suggestions -/

/-- What is suggested behind what has been read: nothing behind a value. -/
def Progress.expected : Progress → List Token.Kind
  | .next state => state.expected
  | .done _ => []

theorem exists_mem_progress (progress : Progress) :
  ∃ ks, ks ∈ progress.continuations
  := by
  cases progress with
  | next state => exact exists_mem_continuations state
  | done v => exact ⟨[], Language.nil_mem_one⟩

theorem exists_suggested_mem {progress : Progress} {k : Token.Kind} (hk : k ∈ progress.expected) :
  ∃ more, [k] ++ more ∈ progress.continuations
  := by
  cases progress with
  | next state => exact exists_expected_mem state hk
  | done v => cases hk

/-- Nothing is suggested exactly where nothing more is needed. -/
theorem expected_eq_nil_iff (progress : Progress) :
  progress.expected = [] ↔ [] ∈ progress.continuations
  := by
  cases progress with
  | next state => exact iff_of_false (expected_ne_nil state) (nil_notMem_continuations state)
  | done v => exact iff_of_true rfl Language.nil_mem_one

theorem State.Leads.viable {front : List Token} {progress : Progress}
    (h : (State.value []).Leads front progress) :
  Viable (front.map Token.kind)
  := by
  rw [← List.append_nil (front.map Token.kind), h.viable_iff]
  exact exists_mem_progress progress

/-- What is suggested behind the first tokens of a text goes on a sentence. -/
theorem State.Leads.suggested {front : List Token} {progress : Progress}
    (h : (State.value []).Leads front progress) :
  ∀ k ∈ progress.expected, Viable (front.map Token.kind ++ [k])
  := by
  intro k hk
  rw [h.viable_iff]
  exact exists_suggested_mem hk

/-! ### Stops -/

/-- Reading stops before some tokens: there are none although a value has not ended, or the first
one is no continuation. -/
inductive Stops : Progress → List Token → Fault → Prop
  | ended (state : State) : Stops (.next state) [] state.ended
  | refused {progress : Progress} {t : Token} (ts : List Token) :
    (∀ ks, t.kind :: ks ∉ progress.continuations) →
      Stops progress (t :: ts) ⟨unexpected progress.expected t, t⟩

/-- Reading a value leads to its end. -/
theorem leads_of_readFrom {state : State} {front : List Token} {v : Value}
    (h : readFrom state front = .ok (v, [])) :
  state.Leads front (.done v)
  := by
  induction front generalizing state with
  | nil => cases h
  | cons t front ih =>
    rw [readFrom] at h
    split at h
    · cases h
    · rename_i hstep
      exact leads_cons hstep (ih h)
    · rename_i hstep
      cases h
      have htells := foretells_step state t
      rw [hstep] at htells
      exact htells

/-- A reading that does not come to a value stops somewhere in the tokens. -/
theorem exists_stops_of_readFrom {state : State} {ts : List Token} {fault : Fault}
    (h : readFrom state ts = .error fault) (hexpected : fault.cause.expected?.isSome) :
  ∃ front rest reached, ts = front ++ rest ∧ state.Leads front (.next reached)
    ∧ Stops (.next reached) rest fault
  := by
  induction ts generalizing state with
  | nil =>
    cases h
    exact ⟨[], [], state, rfl, leads_nil state, .ended state⟩
  | cons t ts ih =>
    rw [readFrom] at h
    split at h
    · rename_i hstep
      cases h
      have htells := foretells_step state t
      rw [hstep] at htells
      obtain ⟨rfl, hnone⟩ := htells hexpected
      exact ⟨[], t :: ts, state, rfl, leads_nil state, .refused ts hnone⟩
    · rename_i hstep
      obtain ⟨front, rest, reached, rfl, hleads, hstops⟩ := ih h
      exact ⟨t :: front, rest, reached, rfl, leads_cons hstep hleads, hstops⟩
    · cases h

/-- A reading of all of the tokens stops within a value, or behind one. -/
theorem exists_stops_of_ofTokens {ts : List Token} {fault : Fault}
    (h : ofTokens ts = .error fault) (hexpected : fault.cause.expected?.isSome) :
  ∃ front rest progress, ts = front ++ rest ∧ (State.value []).Leads front progress
    ∧ Stops progress rest fault ∧ ∀ v, progress = .done v → ofTokens front = .ok v
  := by
  rw [ofTokens] at h
  split at h
  · rename_i hread
    cases h
    obtain ⟨front, rest, reached, rfl, hleads, hstops⟩ := exists_stops_of_readFrom hread hexpected
    refine ⟨front, rest, _, rfl, hleads, hstops, ?_⟩
    intro v hv
    cases hv
  · cases h
  · rename_i v t us hread
    cases h
    obtain ⟨front, rfl, hfront⟩ := exists_of_readFrom hread
    refine ⟨front, t :: us, .done v, rfl, leads_of_readFrom hfront, .refused us ?_, ?_⟩
    · intro ks hks
      cases hks
    · intro w hw
      cases hw
      rw [ofTokens, read, hfront]

/-! ### Places -/

theorem expected?_unexpected (expected : List Token.Kind) (t : Token) :
  (unexpected expected t).expected? = some expected
  := by
  unfold unexpected
  split <;> rfl

/-- The suggestions of an error are those where reading stops. -/
theorem Stops.expected?_eq {progress : Progress} {rest : List Token} {fault : Fault}
    (h : Stops progress rest fault) :
  fault.cause.expected? = some progress.expected
  := by
  cases h with
  | ended state => rfl
  | refused ts hnone => apply expected?_unexpected

/-- A stop behind the first tokens of a text, as an error. -/
theorem refuses_of_stops {text : String} {front rest : List Token} {progress : Progress}
    {fault : Fault} (htokens : Token.ofText text.toList = front ++ rest)
    (hleads : (State.value []).Leads front progress) (hstops : Stops progress rest fault)
    (hvalue : ∀ v, progress = .done v → ofTokens front = .ok v) :
  (fault.locate text.toList).Refuses text progress.expected front rest
  := by
  have hlaid := Token.laid_ofText text.toList
  rw [htokens] at hlaid
  have hcomplete : progress.expected = [] →
      front.map Token.kind ∈ sentences ∧ ∃ v, ofTokens front = .ok v := by
    intro hnil
    refine ⟨hleads.mem_iff.2 ((expected_eq_nil_iff progress).1 hnil), ?_⟩
    cases progress with
    | next state => cases expected_ne_nil state hnil
    | done v => exact ⟨v, hvalue v rfl⟩
  cases hstops with
  | ended state =>
    have hlength : byteLength text.toList = text.utf8ByteSize := byteLength_toList text
    refine ⟨htokens, ?_, ?_, hleads.viable, ?_, ?_, hleads.suggested, hcomplete⟩
    · intro t ht
      have hle := hlaid.stop_le (List.mem_append_left [] ht)
      rwa [Nat.zero_add] at hle
    · intro t ht
      cases ht
    · intro _
      refine ⟨?_, ?_⟩
      · rw [State.ended, Fault.locate, hlength]
        rfl
      · rw [hleads.mem_iff]
        exact nil_notMem_continuations state
    · intro t ht
      cases ht
  | @refused _ t ts hnone =>
    obtain ⟨-, hbehind, hbetween⟩ := List.pairwise_append.1 hlaid.pairwise
    refine ⟨htokens, ?_, ?_, hleads.viable, ?_, ?_, hleads.suggested, hcomplete⟩
    · intro u hu
      exact hbetween u hu t List.mem_cons_self
    · intro u hu
      rcases List.mem_cons.1 hu with rfl | hu
      · exact Nat.le_refl _
      · exact (Nat.le_add_right _ _).trans (List.rel_of_pairwise_cons hbehind hu)
    · intro hnil
      cases hnil
    · intro u hu
      cases hu
      refine ⟨rfl, ?_⟩
      rw [List.map_append, List.map_singleton, hleads.viable_iff]
      rintro ⟨more, hmore⟩
      exact hnone more hmore

/-- An error where other tokens are expected stands at the first token with which there is no
sentence, or at the end if the tokens are none, and suggests only what goes on a sentence, or
nothing behind a value. Every error lies within the text, and its slice is the part of the text
there. -/
theorem refuses_of_ofText (text : String) (e : ReadError) :
  (ofText text = .error e → ∀ expected, e.cause.expected? = some expected →
      ∃ before rest, e.Refuses text expected before rest)
    ∧ (ofText text = .error e ∨ sequenceOfText text = .error e → e.Within text)
  := by
  refine ⟨?_, within_of_error⟩
  intro herror expected hexpected
  obtain ⟨fault, hfault, rfl⟩ := exists_of_mapError_eq_error herror
  have hcause : (fault.locate text.toList).cause = fault.cause := by
    unfold Fault.locate
    split <;> rfl
  rw [hcause] at hexpected
  obtain ⟨before, rest, progress, htokens, hleads, hstops, hvalue⟩ :=
    exists_stops_of_ofTokens hfault (hexpected ▸ rfl)
  obtain rfl : progress.expected = expected :=
    Option.some.inj (hstops.expected?_eq.symm.trans hexpected)
  exact ⟨before, rest, refuses_of_stops htokens hleads hstops hvalue⟩

/-- The error at a character that begins no token, in the place of the second element of a list. -/
def misplaced : ReadError :=
  ⟨.unexpectedText starts, 4, 6, ['é']⟩

/-- What may begin an element is expected, and only this character is shown, which takes two
bytes. -/
theorem refuses_of_ofText_misplaced :
  ofText "[1, é]" = .error misplaced
    ∧ (∃ before rest, misplaced.Refuses "[1, é]" starts before rest)
    ∧ misplaced.Within "[1, é]"
  := by
  have herror : ofText "[1, é]" = .error misplaced := by
    rfl
  obtain ⟨hrefuses, hwithin⟩ := refuses_of_ofText "[1, é]" misplaced
  exact ⟨herror, hrefuses herror starts rfl, hwithin (.inl herror)⟩

end Value

end Dice
