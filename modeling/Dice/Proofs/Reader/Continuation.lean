import Dice.Proofs.Reader.Grammar
import Mathlib.Computability.Language

/-!
# Continuations

The grammar makes a language of kinds of tokens. A state of the reader says how what has been read
may go on: a token that it takes leads to the state of what may come behind that token, and with any
other token there is no sentence. So behind any tokens that have been read, the rests of sentences
are exactly the continuations of the state that they lead to.
-/

namespace Dice

/-! ### Languages of kinds -/

/-- A single token of a kind. -/
def letter (k : Token.Kind) : Language Token.Kind :=
  {[k]}

/-- The sentences of the grammar: the kinds of the tokens of values. -/
def sentences : Language Token.Kind :=
  {ks | ∃ ts tree, Derives ts tree ∧ ts.map Token.kind = ks}

/-- The kinds of the tokens between the brackets of lists. -/
def contents : Language Token.Kind :=
  {ks | ∃ ts items, DerivesItems ts items ∧ ts.map Token.kind = ks}

/-- The kinds of the tokens of the elements of lists behind the first one. -/
def further : Language Token.Kind :=
  {ks | ∃ ts items, DerivesMore ts items ∧ ts.map Token.kind = ks}

/-- The kinds of numerals. -/
def numerals : Language Token.Kind :=
  letter .integer + letter .decimal

/-- What may come behind an element of a list, up to the end of the list. -/
def tail : Language Token.Kind :=
  further * (1 + letter .comma)

/-- Whether some kinds are those of the first tokens of a sentence. -/
def Viable (ks : List Token.Kind) : Prop :=
  ∃ more, ks ++ more ∈ sentences

theorem mem_letter (k : Token.Kind) :
  [k] ∈ letter k
  := rfl

theorem mem_letter_mul_iff {k : Token.Kind} {L : Language Token.Kind} {ks : List Token.Kind} :
  ks ∈ letter k * L ↔ ∃ more ∈ L, k :: more = ks
  := by
  rw [Language.mem_mul]
  constructor
  · rintro ⟨_, rfl, more, hmore, rfl⟩
    exact ⟨more, hmore, rfl⟩
  · rintro ⟨more, hmore, rfl⟩
    exact ⟨[k], rfl, more, hmore, rfl⟩

theorem cons_mem_letter_mul_iff {k k' : Token.Kind} {L : Language Token.Kind}
    {ks : List Token.Kind} :
  k :: ks ∈ letter k' * L ↔ k = k' ∧ ks ∈ L
  := by
  rw [mem_letter_mul_iff]
  constructor
  · rintro ⟨more, hmore, heq⟩
    obtain ⟨rfl, rfl⟩ := List.cons.inj heq
    exact ⟨rfl, hmore⟩
  · rintro ⟨rfl, hks⟩
    exact ⟨ks, hks, rfl⟩

theorem nil_notMem_letter_mul (k : Token.Kind) (L : Language Token.Kind) :
  [] ∉ letter k * L
  := by
  rw [mem_letter_mul_iff]
  rintro ⟨more, -, heq⟩
  cases heq

theorem nil_mem_mul_iff {L M : Language Token.Kind} :
  [] ∈ L * M ↔ [] ∈ L ∧ [] ∈ M
  := by
  rw [Language.mem_mul]
  constructor
  · rintro ⟨ks, hks, ls, hls, hnil⟩
    obtain ⟨rfl, rfl⟩ := List.append_eq_nil_iff.1 hnil
    exact ⟨hks, hls⟩
  · rintro ⟨hks, hls⟩
    exact ⟨[], hks, [], hls, rfl⟩

/-! ### The rules of the grammar -/

theorem mem_numerals_iff {k : Token.Kind} :
  [k] ∈ numerals ↔ k.IsNumeral
  := by
  rw [numerals, Language.mem_add]
  constructor
  · rintro (h | h)
    · exact .inl (List.cons.inj h).1
    · exact .inr (List.cons.inj h).1
  · rintro (rfl | rfl)
    · exact .inl rfl
    · exact .inr rfl

theorem exists_of_mem_numerals {ks : List Token.Kind} (h : ks ∈ numerals) :
  ∃ t : Token, ks = [t.kind] ∧ t.kind.IsNumeral
  := by
  rcases h with rfl | rfl
  · exact ⟨⟨.integer, [], 0⟩, rfl, .inl rfl⟩
  · exact ⟨⟨.decimal, [], 0⟩, rfl, .inr rfl⟩

theorem Derives.mem_sentences {ts : List Token} {tree : Tree} (h : Derives ts tree) :
  ts.map Token.kind ∈ sentences
  := ⟨ts, tree, h, rfl⟩

theorem DerivesItems.mem_contents {ts : List Token} {items : List Tree}
    (h : DerivesItems ts items) :
  ts.map Token.kind ∈ contents
  := ⟨ts, items, h, rfl⟩

theorem DerivesMore.mem_further {ts : List Token} {items : List Tree}
    (h : DerivesMore ts items) :
  ts.map Token.kind ∈ further
  := ⟨ts, items, h, rfl⟩

/-- A value is a signed numeral, a list or a die. -/
theorem sentences_eq :
  sentences = numerals + letter .minus * numerals
    + letter .leftBracket * (contents * letter .rightBracket)
    + letter .leftBrace * (letter .die * (letter .comma
        * (sentences * (letter .comma * (sentences * letter .rightBrace)))))
  := by
  apply Language.ext
  intro ks
  simp only [Language.mem_add]
  constructor
  · rintro ⟨ts, tree, h, rfl⟩
    cases h with
    | numeral ht =>
      left; left; left
      exact mem_numerals_iff.2 ht
    | negative hm ht =>
      left; left; right
      rw [List.map_cons, cons_mem_letter_mul_iff]
      exact ⟨hm, mem_numerals_iff.2 ht⟩
    | list hl hitems hr =>
      left; right
      rw [List.map_cons, List.map_append, cons_mem_letter_mul_iff, List.map_singleton, hr]
      exact ⟨hl, Language.append_mem_mul hitems.mem_contents (mem_letter _)⟩
    | die hl hw hc houtcome hd hfaces hr =>
      right
      simp only [List.map_cons, List.map_append, List.map_nil, cons_mem_letter_mul_iff]
      refine ⟨hl, hw, hc, Language.append_mem_mul houtcome.mem_sentences ?_⟩
      rw [cons_mem_letter_mul_iff, hr]
      exact ⟨hd, Language.append_mem_mul hfaces.mem_sentences (mem_letter _)⟩
  · rintro (((h | h) | h) | h)
    · obtain ⟨t, rfl, ht⟩ := exists_of_mem_numerals h
      exact ⟨[t], _, .numeral ht, rfl⟩
    · obtain ⟨_, hks, rfl⟩ := mem_letter_mul_iff.1 h
      obtain ⟨t, rfl, ht⟩ := exists_of_mem_numerals hks
      exact ⟨[⟨.minus, [], 0⟩, t], _, .negative rfl ht, rfl⟩
    · obtain ⟨_, hks, rfl⟩ := mem_letter_mul_iff.1 h
      obtain ⟨_, ⟨ts, items, hitems, rfl⟩, _, rfl, rfl⟩ := Language.mem_mul.1 hks
      refine ⟨⟨.leftBracket, [], 0⟩ :: (ts ++ [⟨.rightBracket, [], 0⟩]), _,
        .list rfl hitems rfl, ?_⟩
      rw [List.map_cons, List.map_append, List.map_singleton]
    · obtain ⟨_, hword, rfl⟩ := mem_letter_mul_iff.1 h
      obtain ⟨_, hcomma, rfl⟩ := mem_letter_mul_iff.1 hword
      obtain ⟨_, hvalues, rfl⟩ := mem_letter_mul_iff.1 hcomma
      obtain ⟨_, ⟨ts, outcome, houtcome, rfl⟩, _, hrest, rfl⟩ := Language.mem_mul.1 hvalues
      obtain ⟨_, hlast, rfl⟩ := mem_letter_mul_iff.1 hrest
      obtain ⟨_, ⟨us, faces, hfaces, rfl⟩, _, rfl, rfl⟩ := Language.mem_mul.1 hlast
      refine ⟨⟨.leftBrace, [], 0⟩ :: ⟨.die, [], 0⟩ :: ⟨.comma, [], 0⟩
        :: (ts ++ ⟨.comma, [], 0⟩ :: (us ++ [⟨.rightBrace, [], 0⟩])), _,
        .die rfl rfl rfl houtcome rfl hfaces rfl, ?_⟩
      simp only [List.map_cons, List.map_append, List.map_nil]

/-- Behind an element there are further ones, each behind a comma. -/
theorem further_eq :
  further = 1 + letter .comma * (sentences * further)
  := by
  apply Language.ext
  intro ks
  rw [Language.mem_add]
  constructor
  · rintro ⟨ts, items, h, rfl⟩
    cases h with
    | nil =>
      left
      exact Language.nil_mem_one
    | cons hc hitem hmore =>
      right
      rw [List.map_cons, List.map_append, cons_mem_letter_mul_iff]
      exact ⟨hc, Language.append_mem_mul hitem.mem_sentences hmore.mem_further⟩
  · rintro (rfl | h)
    · exact ⟨[], [], .nil, rfl⟩
    · obtain ⟨_, hks, rfl⟩ := mem_letter_mul_iff.1 h
      obtain ⟨_, ⟨ts, item, hitem, rfl⟩, _, ⟨us, items, hmore, rfl⟩, rfl⟩ :=
        Language.mem_mul.1 hks
      refine ⟨⟨.comma, [], 0⟩ :: (ts ++ us), _, .cons rfl hitem hmore, ?_⟩
      rw [List.map_cons, List.map_append]

theorem Trailing.mem {cs : List Token} (h : Trailing cs) :
  cs.map Token.kind ∈ 1 + letter .comma
  := by
  rw [Language.mem_add]
  cases h with
  | none =>
    left
    exact Language.nil_mem_one
  | comma hc =>
    right
    rw [List.map_singleton, hc]
    exact mem_letter _

theorem exists_trailing {ks : List Token.Kind} (h : ks ∈ 1 + letter .comma) :
  ∃ cs, Trailing cs ∧ cs.map Token.kind = ks
  := by
  rcases h with rfl | rfl
  · exact ⟨[], .none, rfl⟩
  · exact ⟨[⟨.comma, [], 0⟩], .comma rfl, rfl⟩

/-- A list is empty, or it has a first element. -/
theorem contents_eq :
  contents = 1 + sentences * tail
  := by
  apply Language.ext
  intro ks
  rw [Language.mem_add]
  constructor
  · rintro ⟨ts, items, h, rfl⟩
    cases h with
    | none =>
      left
      exact Language.nil_mem_one
    | some hitem hmore hcs =>
      right
      rw [List.map_append, List.map_append]
      apply Language.append_mem_mul hitem.mem_sentences
      exact Language.append_mem_mul hmore.mem_further hcs.mem
  · rintro (rfl | h)
    · exact ⟨[], [], .none, rfl⟩
    · obtain ⟨_, ⟨ts, item, hitem, rfl⟩, _, htail, rfl⟩ := Language.mem_mul.1 h
      obtain ⟨_, ⟨us, items, hmore, rfl⟩, _, htrailing, rfl⟩ := Language.mem_mul.1 htail
      obtain ⟨cs, hcs, rfl⟩ := exists_trailing htrailing
      refine ⟨ts ++ (us ++ cs), _, .some hitem hmore hcs, ?_⟩
      rw [List.map_append, List.map_append]

/-- Behind an element, the list ends or a comma comes, behind which it may go on as from its
beginning. -/
theorem tail_eq :
  tail = 1 + letter .comma * contents
  := by
  rw [contents_eq]
  calc tail = (1 + letter .comma * (sentences * further)) * (1 + letter .comma) := by
        rw [tail, ← further_eq]
    _ = 1 + letter .comma * (1 + sentences * tail) := by
        simp only [tail, add_mul, mul_add, one_mul, mul_one, mul_assoc]
        abel

/-! ### What may come next -/

/-- The kinds that a cause of an error suggests, if it is that a token comes where others are
expected. -/
def ReadError.Cause.expected? : Cause → Option (List Token.Kind)
  | unexpectedToken _ expected => some expected
  | unexpectedText expected => some expected
  | outOfRange => none
  | invalidDie _ => none

namespace Value

/-- What may come behind a value within open lists and dice, innermost first. -/
def closings : List Pending → Language Token.Kind
  | [] => 1
  | .list _ :: pending => tail * (letter .rightBracket * closings pending)
  | .outcome :: pending => letter .comma * (sentences * (letter .rightBrace * closings pending))
  | .faces _ :: pending => letter .rightBrace * closings pending

/-- What may come next. -/
def State.continuations : State → Language Token.Kind
  | .value pending => sentences * closings pending
  | .item _ pending => contents * (letter .rightBracket * closings pending)
  | .separator items pending => closings (.list items :: pending)
  | .numeral pending => numerals * closings pending
  | .word pending => letter .die * (letter .comma * (sentences * closings (.outcome :: pending)))
  | .wordComma pending => letter .comma * (sentences * closings (.outcome :: pending))
  | .outcomeComma _ pending => closings (.outcome :: pending)
  | .brace outcome _ pending => closings (.faces outcome :: pending)

/-- What may come behind a token: nothing, where it ends a value. -/
def Progress.continuations : Progress → Language Token.Kind
  | .next state => state.continuations
  | .done _ => 1

theorem continuations_close (v : Value) (pending : List Pending) :
  (close v pending).continuations = closings pending
  := by
  cases pending with
  | nil => rfl
  | cons p pending => cases p <;> rfl

/-- What begins with a value, by the kind of its first token. -/
theorem cons_mem_value_iff {k : Token.Kind} {ks : List Token.Kind} (pending : List Pending) :
  k :: ks ∈ (State.value pending).continuations
    ↔ (k = .integer ∧ ks ∈ closings pending) ∨ (k = .decimal ∧ ks ∈ closings pending)
      ∨ (k = .minus ∧ ks ∈ (State.numeral pending).continuations)
      ∨ (k = .leftBracket ∧ ks ∈ (State.item [] pending).continuations)
      ∨ (k = .leftBrace ∧ ks ∈ (State.word pending).continuations)
  := by
  rw [State.continuations, sentences_eq]
  simp only [State.continuations, closings, numerals, add_mul, mul_assoc, Language.mem_add,
    cons_mem_letter_mul_iff, or_assoc]

/-- Where an element may come, a list may end. -/
theorem cons_mem_item_iff {k : Token.Kind} {ks : List Token.Kind} (items : List Value)
    (pending : List Pending) :
  k :: ks ∈ (State.item items pending).continuations
    ↔ (k = .rightBracket ∧ ks ∈ closings pending)
      ∨ k :: ks ∈ (State.value (.list items :: pending)).continuations
  := by
  have heq : (State.item items pending).continuations = letter .rightBracket * closings pending
      + (State.value (.list items :: pending)).continuations := by
    change contents * (letter .rightBracket * closings pending) = _
    rw [contents_eq, add_mul, one_mul, mul_assoc]
    rfl
  rw [heq, Language.mem_add, cons_mem_letter_mul_iff]

/-- Behind an element, a list ends, or it goes on behind a comma. -/
theorem cons_mem_separator_iff {k : Token.Kind} {ks : List Token.Kind} (items : List Value)
    (pending : List Pending) :
  k :: ks ∈ (State.separator items pending).continuations
    ↔ (k = .rightBracket ∧ ks ∈ closings pending)
      ∨ (k = .comma ∧ ks ∈ (State.item items pending).continuations)
  := by
  have heq : (State.separator items pending).continuations
      = letter .rightBracket * closings pending
        + letter .comma * (State.item items pending).continuations := by
    change tail * (letter .rightBracket * closings pending) = _
    rw [tail_eq, add_mul, one_mul, mul_assoc]
    rfl
  rw [heq, Language.mem_add, cons_mem_letter_mul_iff, cons_mem_letter_mul_iff]

theorem cons_mem_numeral_iff {k : Token.Kind} {ks : List Token.Kind} (pending : List Pending) :
  k :: ks ∈ (State.numeral pending).continuations
    ↔ (k = .integer ∧ ks ∈ closings pending) ∨ (k = .decimal ∧ ks ∈ closings pending)
  := by
  rw [State.continuations, numerals, add_mul, Language.mem_add, cons_mem_letter_mul_iff,
    cons_mem_letter_mul_iff]

/-! ### Steps -/

/-- What a step tells of the continuations: those behind the token, or that there are none with it
if it is not expected. -/
def State.Foretells (state : State) (t : Token) : Except ReadError.Cause Progress → Prop
  | .ok progress => ∀ ks, t.kind :: ks ∈ state.continuations ↔ ks ∈ progress.continuations
  | .error cause => cause.expected?.isSome →
    cause = unexpected state.expected t ∧ ∀ ks, t.kind :: ks ∉ state.continuations

section

variable {state : State} {t : Token}

theorem foretells_unexpected (h : ∀ ks, t.kind :: ks ∉ state.continuations) :
  state.Foretells t (.error (unexpected state.expected t))
  := fun _ => ⟨rfl, h⟩

theorem foretells_close {pending : List Pending}
    (h : ∀ ks, t.kind :: ks ∈ state.continuations ↔ ks ∈ closings pending) (v : Value) :
  state.Foretells t (.ok (close v pending))
  := by
  intro ks
  rw [h, continuations_close]

/-- A numeral tells what comes behind it, although it may be out of range. -/
theorem foretells_closeNumeral {pending : List Pending}
    (h : ∀ ks, t.kind :: ks ∈ state.continuations ↔ ks ∈ closings pending)
    (negative : Bool) (x? : Bool → List Char → Option Number) :
  state.Foretells t (closeNumeral negative x? t pending)
  := by
  unfold closeNumeral
  split
  · exact foretells_close h _
  · intro hsome
    cases hsome

/-- The first token of a value tells what comes behind it. -/
theorem foretells_startValue {pending : List Pending} (hexpected : state.expected = starts)
    (h : ∀ ks, t.kind :: ks ∈ state.continuations
      ↔ t.kind :: ks ∈ (State.value pending).continuations) :
  state.Foretells t (startValue t pending)
  := by
  simp only [cons_mem_value_iff] at h
  unfold startValue
  cases hkind : t.kind with
  | integer | decimal =>
    apply foretells_closeNumeral
    simpa [hkind] using h
  | minus | leftBracket | leftBrace =>
    intro ks
    simpa [hkind, Progress.continuations] using h ks
  | _ =>
    rw [← hexpected]
    apply foretells_unexpected
    simpa [hkind] using h

/-- Where one kind of token may come, a token of this kind tells what comes behind it. -/
theorem foretells_next {kind : Token.Kind} {next : State}
    (h : state.continuations = letter kind * next.continuations) (ht : t.kind = kind) :
  state.Foretells t (.ok (.next next))
  := by
  intro ks
  rw [h, cons_mem_letter_mul_iff]
  exact and_iff_right ht

/-- Where one kind of token may come, no other one may. -/
theorem foretells_other {kind : Token.Kind} {L : Language Token.Kind}
    (h : state.continuations = letter kind * L) (ht : t.kind ≠ kind) :
  state.Foretells t (.error (unexpected state.expected t))
  := by
  apply foretells_unexpected
  intro ks hks
  rw [h, cons_mem_letter_mul_iff] at hks
  exact ht hks.1

end

theorem foretells_item (items : List Value) (pending : List Pending) (t : Token) :
  (State.item items pending).Foretells t ((State.item items pending).step t)
  := by
  simp only [State.step]
  split
  · rename_i h
    apply foretells_close
    simp [cons_mem_item_iff, cons_mem_value_iff, h]
  · rename_i h
    apply foretells_startValue rfl
    intro ks
    rw [cons_mem_item_iff, or_iff_right (fun hks => h hks.1)]

theorem foretells_separator (items : List Value) (pending : List Pending) (t : Token) :
  (State.separator items pending).Foretells t ((State.separator items pending).step t)
  := by
  simp only [State.step]
  split
  · rename_i h
    intro ks
    simp [cons_mem_separator_iff, h, Progress.continuations]
  · rename_i h
    apply foretells_close
    simp [cons_mem_separator_iff, h]
  · rename_i hcomma hbracket
    apply foretells_unexpected
    intro ks hks
    rcases (cons_mem_separator_iff items pending).1 hks with hks | hks
    · exact hbracket hks.1
    · exact hcomma hks.1

theorem foretells_numeral (pending : List Pending) (t : Token) :
  (State.numeral pending).Foretells t ((State.numeral pending).step t)
  := by
  simp only [State.step]
  split
  · rename_i h
    apply foretells_closeNumeral
    simp [cons_mem_numeral_iff, h]
  · rename_i h
    apply foretells_closeNumeral
    simp [cons_mem_numeral_iff, h]
  · rename_i hinteger hdecimal
    apply foretells_unexpected
    intro ks hks
    rcases (cons_mem_numeral_iff pending).1 hks with hks | hks
    · exact hinteger hks.1
    · exact hdecimal hks.1

/-- A brace tells what comes behind a die, although the die may not be put down. -/
theorem foretells_brace (x f : Value) (pending : List Pending) (t : Token) :
  (State.brace x f pending).Foretells t ((State.brace x f pending).step t)
  := by
  simp only [State.step]
  split <;> rename_i h
  · cases Die.ofValues x f with
    | ok d =>
      apply foretells_close
      intro ks
      exact cons_mem_letter_mul_iff.trans (and_iff_right h)
    | error why =>
      intro hsome
      cases hsome
  · exact foretells_other rfl h

/-- Every step tells what comes behind its token. -/
theorem foretells_step (state : State) (t : Token) :
  state.Foretells t (state.step t)
  := by
  cases state with
  | value pending => exact foretells_startValue rfl fun _ => Iff.rfl
  | item items pending => exact foretells_item items pending t
  | separator items pending => exact foretells_separator items pending t
  | numeral pending => exact foretells_numeral pending t
  | brace x f pending => exact foretells_brace x f pending t
  | _ =>
    -- In the other states there is one kind of token that leads to the next state.
    simp only [State.step]
    split <;> rename_i h
    · exact foretells_next rfl h
    · exact foretells_other rfl h

/-! ### Open ends -/

theorem integer_mem_sentences :
  [.integer] ∈ sentences
  := ⟨[⟨.integer, [], 0⟩], _, .numeral (.inl rfl), rfl⟩

/-- All that is open can be closed. -/
theorem exists_mem_closings (pending : List Pending) :
  ∃ ks, ks ∈ closings pending
  := by
  induction pending with
  | nil => exact ⟨[], Language.nil_mem_one⟩
  | cons p pending ih =>
    obtain ⟨ks, hks⟩ := ih
    have hclosed : ∀ k, k :: ks ∈ letter k * closings pending :=
      fun k => cons_mem_letter_mul_iff.2 ⟨rfl, hks⟩
    cases p with
    | list items =>
      have hnil : [] ∈ tail := by
        rw [tail_eq, Language.mem_add]
        exact .inl Language.nil_mem_one
      exact ⟨[] ++ .rightBracket :: ks, Language.append_mem_mul hnil (hclosed _)⟩
    | outcome =>
      have hfaces := Language.append_mem_mul integer_mem_sentences (hclosed .rightBrace)
      exact ⟨_, cons_mem_letter_mul_iff.2 ⟨rfl, hfaces⟩⟩
    | faces x => exact ⟨_, hclosed .rightBrace⟩

/-- Where only one kind of token may come, it may come. -/
theorem exists_next_mem {state : State} (next : State) {kind : Token.Kind}
    (h : state.continuations = letter kind * next.continuations)
    (hnext : ∃ ks, ks ∈ next.continuations) :
  ∃ ks, kind :: ks ∈ state.continuations
  := by
  obtain ⟨ks, hks⟩ := hnext
  rw [h]
  exact ⟨ks, cons_mem_letter_mul_iff.2 ⟨rfl, hks⟩⟩

/-- A value can be an integer. -/
theorem exists_integer_mem (pending : List Pending) :
  ∃ ks, .integer :: ks ∈ (State.value pending).continuations
  := by
  obtain ⟨ks, hks⟩ := exists_mem_closings pending
  exact ⟨ks, (cons_mem_value_iff pending).2 (.inl ⟨rfl, hks⟩)⟩

theorem exists_comma_mem (pending : List Pending) :
  ∃ ks, .comma :: ks ∈ (State.wordComma pending).continuations
  := by
  obtain ⟨ks, hks⟩ := exists_integer_mem (.outcome :: pending)
  exact exists_next_mem (.value (.outcome :: pending)) rfl ⟨_, hks⟩

theorem exists_die_mem (pending : List Pending) :
  ∃ ks, .die :: ks ∈ (State.word pending).continuations
  := by
  obtain ⟨ks, hks⟩ := exists_comma_mem pending
  exact exists_next_mem (.wordComma pending) rfl ⟨_, hks⟩

/-- What is suggested where a value is expected may come. -/
theorem exists_starts_mem (pending : List Pending) {k : Token.Kind} (hk : k ∈ starts) :
  ∃ ks, k :: ks ∈ (State.value pending).continuations
  := by
  obtain ⟨ks, hks⟩ := exists_mem_closings pending
  have hcases : k = .integer ∨ k = .decimal ∨ k = .minus ∨ k = .leftBracket ∨ k = .leftBrace := by
    simpa [starts] using hk
  simp only [cons_mem_value_iff]
  rcases hcases with rfl | rfl | rfl | rfl | rfl
  · exact ⟨ks, .inl ⟨rfl, hks⟩⟩
  · exact ⟨ks, .inr (.inl ⟨rfl, hks⟩)⟩
  · have hnumeral := (cons_mem_numeral_iff pending).2 (.inl ⟨rfl, hks⟩)
    exact ⟨_, .inr (.inr (.inl ⟨rfl, hnumeral⟩))⟩
  · have hitem := (cons_mem_item_iff [] pending).2 (.inl ⟨rfl, hks⟩)
    exact ⟨_, .inr (.inr (.inr (.inl ⟨rfl, hitem⟩)))⟩
  · obtain ⟨more, hword⟩ := exists_die_mem pending
    exact ⟨_, .inr (.inr (.inr (.inr ⟨rfl, hword⟩)))⟩

/-- What is suggested may come. -/
theorem exists_expected_mem (state : State) {k : Token.Kind} (hk : k ∈ state.expected) :
  ∃ ks, k :: ks ∈ state.continuations
  := by
  cases state with
  | value pending => exact exists_starts_mem pending hk
  | item items pending =>
    obtain ⟨ks, hks⟩ := exists_starts_mem (.list items :: pending) hk
    exact ⟨ks, (cons_mem_item_iff items pending).2 (.inr hks)⟩
  | separator items pending =>
    obtain rfl := List.mem_singleton.1 hk
    obtain ⟨ks, hks⟩ := exists_mem_closings pending
    exact ⟨ks, (cons_mem_separator_iff items pending).2 (.inl ⟨rfl, hks⟩)⟩
  | numeral pending =>
    obtain ⟨ks, hks⟩ := exists_mem_closings pending
    have hcases : k = .integer ∨ k = .decimal := by
      simpa [State.expected] using hk
    exact ⟨ks, (cons_mem_numeral_iff pending).2 (hcases.imp (⟨·, hks⟩) (⟨·, hks⟩))⟩
  | word pending =>
    obtain rfl := List.mem_singleton.1 hk
    exact exists_die_mem pending
  | wordComma pending =>
    obtain rfl := List.mem_singleton.1 hk
    exact exists_comma_mem pending
  | outcomeComma x pending =>
    obtain rfl := List.mem_singleton.1 hk
    obtain ⟨ks, hks⟩ := exists_integer_mem (.faces x :: pending)
    exact exists_next_mem (.value (.faces x :: pending)) rfl ⟨_, hks⟩
  | brace x f pending =>
    obtain rfl := List.mem_singleton.1 hk
    obtain ⟨ks, hks⟩ := exists_mem_closings pending
    exact ⟨ks, cons_mem_letter_mul_iff.2 ⟨rfl, hks⟩⟩

/-- A reading that has not ended suggests something. -/
theorem expected_ne_nil (state : State) :
  state.expected ≠ []
  := by
  cases state <;> exact List.cons_ne_nil _ _

theorem exists_mem_continuations (state : State) :
  ∃ ks, ks ∈ state.continuations
  := by
  obtain ⟨k, hk⟩ := List.exists_mem_of_ne_nil _ (expected_ne_nil state)
  obtain ⟨ks, hks⟩ := exists_expected_mem state hk
  exact ⟨_, hks⟩

/-- What is open has to be closed. -/
theorem nil_notMem_continuations (state : State) :
  [] ∉ state.continuations
  := by
  have hsentences : [] ∉ sentences := by
    rintro ⟨ts, tree, h, hnil⟩
    obtain ⟨t, us, rfl, -⟩ := h.starts
    cases hnil
  cases state with
  | value pending => exact fun h => hsentences (nil_mem_mul_iff.1 h).1
  | item items pending => exact fun h => nil_notMem_letter_mul _ _ (nil_mem_mul_iff.1 h).2
  | separator items pending => exact fun h => nil_notMem_letter_mul _ _ (nil_mem_mul_iff.1 h).2
  | numeral pending =>
    intro h
    obtain ⟨t, hnil, -⟩ := exists_of_mem_numerals (nil_mem_mul_iff.1 h).1
    cases hnil
  | _ => exact nil_notMem_letter_mul _ _

end Value

end Dice
