import Dice.Proofs.Reader.Sequence

/-!
# Descent

The tokens can also be read by recursive descent: a value is read by a function that looks at the
next token and calls itself for the elements of a list and the parts of a die. This needs a bound on
the calls within calls, and on the rounds of a loop. Whatever comes to a result takes a token off
before it calls or goes round again, so there are never more calls and rounds than tokens.
-/

namespace Dice.Value

/-- Reading off the head of some tokens, which comes to a result with the tokens left, or to a
fault. It comes to nothing where it needs more calls within calls, or more rounds, than it is
given. -/
abbrev Descent (α : Type) := StateT (List Token) (ExceptT Fault Option) α

namespace Descent

variable {α β : Type}

/-- Needs more than it is given. -/
def exhausted : Descent α :=
  fun _ => none

/-- The kind of the next token, which is left. -/
def peek : Descent (Option Token.Kind) := do
  return (← get).head?.map Token.kind

/-- Fails at the next token, or at the end. -/
def refuse (expected : List Token.Kind) : Descent α := do
  match ← get with
  | [] => throw ⟨.unexpectedToken none expected, none⟩
  | t :: _ => throw ⟨unexpected expected t, t⟩

/-- Takes the next token, which has to be of a kind. -/
def consume (kind : Token.Kind) : Descent Token := do
  match ← get with
  | t :: ts => if t.kind = kind then do set ts; return t else refuse [kind]
  | [] => refuse [kind]

/-- The value of a numeral that denotes a number. -/
def denoted (t : Token) : Option Number → Descent Value
  | some x => return .number x
  | none => throw ⟨.outOfRange, t⟩

/-- Reads a numeral with its sign before it. -/
def readNumeral (negative : Bool) : Descent Value := do
  match ← peek with
  | some .integer =>
    let t ← consume .integer
    denoted t (ofInteger? negative t.chars)
  | some .decimal =>
    let t ← consume .decimal
    denoted t (ofDecimal? negative t.chars)
  | _ => refuse [.integer, .decimal]

/-- Reads elements up to the end of a list, in so many rounds. -/
def readItems (value : Descent Value) : Nat → Descent (List Value)
  | 0 => exhausted
  | n + 1 => do
    if (← peek) = some .rightBracket then return [] else do
      let v ← value
      if (← peek) = some .comma then do
        let _ ← consume .comma
        return v :: (← readItems value n)
      else return [v]

/-- Reads a list. -/
def readList (value : Descent Value) (n : Nat) : Descent Value := do
  let _ ← consume .leftBracket
  let vs ← readItems value n
  let _ ← consume .rightBracket
  return .list vs

/-- Reads a die. -/
def readDie (value : Descent Value) : Descent Value := do
  let _ ← consume .leftBrace
  let _ ← consume .die
  let _ ← consume .comma
  let x ← value
  let _ ← consume .comma
  let f ← value
  let r ← consume .rightBrace
  match Die.ofValues x f with
  | .ok d => return d.toValue
  | .error why => throw ⟨.invalidDie why, r⟩

/-- Reads a value, whose elements and parts are read with less calls within calls. -/
def readValue : Nat → Descent Value
  | 0 => exhausted
  | n + 1 => do
    match ← peek with
    | some .minus => do
      let _ ← consume .minus
      readNumeral true
    | some .integer => readNumeral false
    | some .decimal => readNumeral false
    | some .leftBracket => readList (readValue n) n
    | some .leftBrace => readDie (readValue n)
    | _ => refuse starts

/-- Reads values up to the end, in so many rounds. -/
def readSequence (value : Descent Value) : Nat → Descent (List Value)
  | 0 => exhausted
  | n + 1 => do
    if (← peek).isNone then return [] else do
      let v ← value
      return v :: (← readSequence value n)

/-! ### Tokens that are taken -/

theorem bind_apply (p : Descent α) (f : α → Descent β) (ts : List Token) :
  (p >>= f) ts
    = match p ts with
      | none => none
      | some (.error e) => some (.error e)
      | some (.ok (a, rest)) => f a rest
  := by
  change (p ts >>= fun (a, rest) => f a rest : ExceptT Fault Option _) = _
  rcases p ts with _ | _ | ⟨a, rest⟩ <;> rfl

theorem consume_cons {kind : Token.Kind} {t : Token} (h : t.kind = kind) (ts : List Token) :
  consume kind (t :: ts) = some (.ok (t, ts))
  := by
  change (if t.kind = kind then _ else refuse [kind] : Descent Token) (t :: ts) = _
  rw [if_pos h]
  rfl

theorem consume_cons_ne {kind : Token.Kind} {t : Token} (h : t.kind ≠ kind) (ts : List Token) :
  consume kind (t :: ts) = some (.error ⟨unexpected [kind] t, t⟩)
  := by
  change (if t.kind = kind then _ else refuse [kind] : Descent Token) (t :: ts) = _
  rw [if_neg h]
  rfl

/-- Where it comes to a result, at least `k` tokens are taken off the head, and on fewer tokens than
`n` it comes to a result or to a fault. -/
structure Progresses (p : Descent α) (k n : Nat) : Prop where
  takes ts a rest : p ts = some (.ok (a, rest)) → rest <:+ ts ∧ rest.length + k ≤ ts.length
  ends ts : ts.length < n → p ts ≠ none

theorem Progresses.mono {p : Descent α} {j k m n : Nat} (h : p.Progresses k n) (hk : j ≤ k)
    (hn : m ≤ n) :
  p.Progresses j m
  := by
  constructor
  · intro ts a rest hp
    obtain ⟨hsuffix, hlength⟩ := h.takes ts a rest hp
    exact ⟨hsuffix, by omega⟩
  · intro ts hts
    apply h.ends ts
    omega

/-- What comes behind some tokens that are taken has fewer tokens to go on with. -/
theorem progresses_bind {p : Descent α} {f : α → Descent β} {j k n : Nat} (hp : p.Progresses j n)
    (hf : ∀ a, (f a).Progresses (k - j) (n - j)) :
  (p >>= f : Descent β).Progresses k n
  := by
  constructor
  · intro ts b rest h
    rw [bind_apply] at h
    rcases hfirst : p ts with _ | e | ⟨a, mid⟩
    · rw [hfirst] at h
      cases h
    · rw [hfirst] at h
      cases h
    · rw [hfirst] at h
      obtain ⟨hsuffix, hlength⟩ := hp.takes ts a mid hfirst
      obtain ⟨hsuffix', hlength'⟩ := (hf a).takes mid b rest h
      exact ⟨hsuffix'.trans hsuffix, by omega⟩
  · intro ts hts
    rw [bind_apply]
    rcases hfirst : p ts with _ | e | ⟨a, mid⟩
    · exact absurd hfirst (hp.ends ts hts)
    · exact Option.some_ne_none _
    · obtain ⟨-, hlength⟩ := hp.takes ts a mid hfirst
      apply (hf a).ends mid
      omega

section

variable (k n : Nat)

theorem progresses_exhausted :
  (exhausted : Descent α).Progresses k 0
  := by
  constructor
  · intro ts a rest h
    cases h
  · intro ts hts
    cases hts

theorem progresses_throw (e : Fault) :
  (throw e : Descent α).Progresses k n
  := by
  constructor
  · intro ts a rest h
    cases h
  · intro ts _
    exact Option.some_ne_none _

theorem progresses_refuse (expected : List Token.Kind) :
  (refuse expected : Descent α).Progresses k n
  := by
  constructor
  · intro ts a rest h
    cases ts <;> cases h
  · intro ts _
    cases ts <;> exact Option.some_ne_none _

theorem progresses_pure (a : α) :
  (pure a : Descent α).Progresses 0 n
  := by
  constructor
  · intro ts b rest h
    cases h
    exact ⟨List.suffix_rfl, Nat.le_refl _⟩
  · intro ts _
    exact Option.some_ne_none _

theorem progresses_peek :
  peek.Progresses 0 n
  := by
  constructor
  · intro ts kind rest h
    cases h
    exact ⟨List.suffix_rfl, Nat.le_refl _⟩
  · intro ts _
    exact Option.some_ne_none _

theorem progresses_consume (kind : Token.Kind) :
  (consume kind).Progresses 1 n
  := by
  have hcases : ∀ ts, (∃ t rest, ts = t :: rest ∧ consume kind ts = some (.ok (t, rest)))
      ∨ ∃ e, consume kind ts = some (.error e) := by
    intro ts
    cases ts with
    | nil => exact .inr ⟨_, rfl⟩
    | cons t ts =>
      by_cases ht : t.kind = kind
      · exact .inl ⟨t, ts, rfl, consume_cons ht ts⟩
      · exact .inr ⟨_, consume_cons_ne ht ts⟩
  constructor
  · intro ts a rest h
    rcases hcases ts with ⟨t, us, rfl, heq⟩ | ⟨e, heq⟩
    · rw [heq] at h
      cases h
      exact ⟨List.suffix_cons _ _, Nat.le_refl _⟩
    · rw [heq] at h
      cases h
  · intro ts _
    rcases hcases ts with ⟨t, us, -, heq⟩ | ⟨e, heq⟩
    · rw [heq]
      exact Option.some_ne_none _
    · rw [heq]
      exact Option.some_ne_none _

theorem progresses_denoted (t : Token) (x? : Option Number) :
  (denoted t x?).Progresses 0 n
  := by
  cases x? with
  | some x => exact progresses_pure n _
  | none => exact progresses_throw 0 n _

theorem progresses_readNumeral (negative : Bool) :
  (readNumeral negative).Progresses 1 n
  := by
  apply progresses_bind (progresses_peek n)
  intro kind
  split
  · apply progresses_bind (progresses_consume _ _)
    intro t
    exact progresses_denoted _ t _
  · apply progresses_bind (progresses_consume _ _)
    intro t
    exact progresses_denoted _ t _
  · exact progresses_refuse _ _ _

end

section

variable {value : Descent Value} {n : Nat} (hvalue : value.Progresses 1 n)

include hvalue

theorem progresses_readItems {m : Nat} (hle : m ≤ n) :
  (readItems value m).Progresses 0 m
  := by
  induction m with
  | zero => exact progresses_exhausted 0
  | succ m ih =>
    apply progresses_bind (progresses_peek _)
    intro kind
    split
    · exact progresses_pure _ _
    · apply progresses_bind (hvalue.mono (Nat.le_refl 1) hle)
      intro v
      apply progresses_bind (progresses_peek _)
      intro kind
      split
      · apply progresses_bind (progresses_consume _ _)
        intro c
        have hrest := (ih (Nat.le_of_succ_le hle)).mono (Nat.le_refl 0) (Nat.sub_le m 1)
        apply progresses_bind hrest
        intro vs
        exact progresses_pure _ _
      · exact progresses_pure _ _

theorem progresses_readList :
  (readList value n).Progresses 1 (n + 1)
  := by
  apply progresses_bind (progresses_consume _ _)
  intro l
  apply progresses_bind (progresses_readItems hvalue (Nat.le_refl n))
  intro vs
  apply progresses_bind (progresses_consume _ _)
  intro r
  exact progresses_pure _ _

theorem progresses_readDie :
  (readDie value).Progresses 1 (n + 1)
  := by
  -- Behind the brace there are less than `n` tokens for the two values.
  have hpart : ∀ m ≤ n, value.Progresses 1 m := fun m hm => hvalue.mono (Nat.le_refl 1) hm
  apply progresses_bind (progresses_consume _ _)
  intro l
  apply progresses_bind (progresses_consume _ _)
  intro w
  apply progresses_bind (progresses_consume _ _)
  intro c
  apply progresses_bind (hpart _ (by omega))
  intro x
  apply progresses_bind (progresses_consume _ _)
  intro d
  apply progresses_bind (hpart _ (by omega))
  intro f
  apply progresses_bind (progresses_consume _ _)
  intro r
  split
  · exact progresses_pure _ _
  · exact progresses_throw _ _ _

end

/-- A value takes at least one token, and is read in as many calls within calls as there are tokens,
and one more. -/
theorem progresses_readValue (n : Nat) :
  (readValue n).Progresses 1 n
  := by
  induction n with
  | zero => exact progresses_exhausted 1
  | succ n ih =>
    apply progresses_bind (progresses_peek _)
    intro kind
    split
    · apply progresses_bind (progresses_consume _ _)
      intro m
      exact (progresses_readNumeral _ true).mono (Nat.zero_le 1) (Nat.le_refl _)
    · exact progresses_readNumeral _ false
    · exact progresses_readNumeral _ false
    · exact progresses_readList ih
    · exact progresses_readDie ih
    · exact progresses_refuse _ _ _

end Descent

end Dice.Value
