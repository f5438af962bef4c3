import Dice.Proofs.Code.Numeral
import Dice.Value.Reader

/-!
# Reading code

What the code of a value is read as is found by recursion on the value: each number is read back
from its own text, and each die is put down again. Reading the code of a value before any
delimiting text, within any lists and dice that are open, comes to exactly that, and fails exactly
where a number cannot be read back or a die cannot be put down.
-/

namespace Dice

/-! ### What code is read as -/

/-- The number of a numeral, which is negative behind a minus sign. -/
def Number.ofNumeral? (negative : Bool) (cs : List Char) : Option Number :=
  if cs.all Char.isDigit then Value.ofInteger? negative cs else Value.ofDecimal? negative cs

/-- The number that the text of a number is read as. -/
def Number.reread? (x : Number) : Option Number :=
  if x.isFinite then
    match x.chars with
    | '-' :: cs => ofNumeral? true cs
    | cs => ofNumeral? false cs
  else none

mutual

/-- The value that the code of a value is read as. -/
def Value.reread? : Value → Option Value
  | .number x => x.reread?.map .number
  | .list vs => (rereadAll? vs).map .list
  | .die x f =>
    x.reread?.bind fun y =>
      f.reread?.bind fun g => (Die.ofValues (.number y) g).toOption.map Die.toValue

/-- The value that the code of some faces is read as. -/
def Faces.reread? : Faces → Option Value
  | .upTo n _ => (Number.ofNumeral? false (Nat.toDigits 10 n)).map .number
  | .listed v vs =>
    (v.reread?.bind fun w => (rereadAll? vs).map fun ws => w :: ws).map .list

/-- The values that the codes of some values are read as. -/
def rereadAll? : List Value → Option (List Value)
  | [] => some []
  | v :: vs => v.reread?.bind fun w => (rereadAll? vs).map fun ws => w :: ws

end

theorem eq_ok_of_toOption {ε α : Type} {e : Except ε α} {a : α} (h : e.toOption = some a) :
  e = .ok a
  := by
  cases e with
  | error e => cases h
  | ok b =>
    cases h
    rfl

namespace Value

/-! ### Steps of a reading -/

/-- What becomes of a reading after a step, if it does not fail. -/
def Progress.resume : Progress → List Token → Option (Value × List Token)
  | .next state, ts => (readFrom state ts).toOption
  | .done v, ts => some (v, ts)

/-- A reading takes a step and resumes. -/
theorem readFrom_cons (state : State) (t : Token) (ts : List Token) :
  (readFrom state (t :: ts)).toOption = (state.step t).toOption.bind (·.resume ts)
  := by
  rw [readFrom]
  rcases state.step t with cause | state | v <;> rfl

/-- An element of a list is read as a value within the list. -/
theorem readFrom_item
    (items : List Value) (pending : List Pending) {t : Token} (ts : List Token)
    (h : t.kind ≠ .rightBracket) :
  readFrom (.item items pending) (t :: ts) = readFrom (.value (.list items :: pending)) (t :: ts)
  := by
  have hstep : (State.item items pending).step t = (State.value (.list items :: pending)).step t := by
    simp only [State.step]
  rw [readFrom, readFrom, hstep]

/-! ### Tokens that have to come -/

/-- A state where only one kind of token may come, and what it leads to. -/
structure State.Awaits (state : State) (kind : Token.Kind)
    (outcome : Except ReadError.Cause Progress) : Prop where
  expected_eq : state.expected = [kind]
  step_eq t : state.step t = if t.kind = kind then outcome else .error (unexpected [kind] t)

theorem awaits_word (pending : List Pending) :
  (State.word pending).Awaits .die (.ok (.next (.wordComma pending)))
  := by
  refine ⟨rfl, ?_⟩
  intro t
  simp only [State.step]
  split <;> rename_i h
  · rw [if_pos h]
  · rw [if_neg h]
    rfl

theorem awaits_wordComma (pending : List Pending) :
  (State.wordComma pending).Awaits .comma (.ok (.next (.value (.outcome :: pending))))
  := by
  refine ⟨rfl, ?_⟩
  intro t
  simp only [State.step]
  split <;> rename_i h
  · rw [if_pos h]
  · rw [if_neg h]
    rfl

theorem awaits_outcomeComma (x : Value) (pending : List Pending) :
  (State.outcomeComma x pending).Awaits .comma (.ok (.next (.value (.faces x :: pending))))
  := by
  refine ⟨rfl, ?_⟩
  intro t
  simp only [State.step]
  split <;> rename_i h
  · rw [if_pos h]
  · rw [if_neg h]
    rfl

/-- The die within a brace, or why it cannot be put down. -/
def put (x f : Value) (pending : List Pending) : Except ReadError.Cause Progress :=
  match Die.ofValues x f with
  | .ok d => .ok (close d.toValue pending)
  | .error why => .error (.invalidDie why)

theorem awaits_brace (x f : Value) (pending : List Pending) :
  (State.brace x f pending).Awaits .rightBrace (put x f pending)
  := by
  refine ⟨rfl, ?_⟩
  intro t
  simp only [State.step]
  split <;> rename_i h
  · rw [if_pos h]
    cases hd : Die.ofValues x f <;> simp only [put, hd]
  · rw [if_neg h]
    rfl

/-! ### Numbers -/

theorem closeNumeral_toOption
    (negative : Bool) (x? : Bool → List Char → Option Number) (t : Token)
    (pending : List Pending) :
  (closeNumeral negative x? t pending).toOption
    = (x? negative t.chars).map fun x => close (.number x) pending
  := by
  unfold closeNumeral
  cases x? negative t.chars <;> rfl

theorem ofNumeral?_integer {cs : List Char} (negative : Bool) (h : Numeral .integer cs) :
  Number.ofNumeral? negative cs = ofInteger? negative cs
  := if_pos h.all_isDigit

theorem ofNumeral?_decimal {cs : List Char} (negative : Bool) (h : Numeral .decimal cs) :
  Number.ofNumeral? negative cs = ofDecimal? negative cs
  := if_neg (Bool.not_eq_true _ ▸ h.not_all_isDigit)

/-- A numeral that begins a value is read as its number. -/
theorem startValue_numeral
    {kind : Token.Kind} {cs : List Char} (h : Numeral kind cs) (start : Nat)
    (pending : List Pending) :
  ((State.value pending).step ⟨kind, cs, start⟩).toOption
    = (Number.ofNumeral? false cs).map fun x => close (.number x) pending
  := by
  cases kind with
  | integer => rw [ofNumeral?_integer false h, State.step, startValue, closeNumeral_toOption]
  | decimal => rw [ofNumeral?_decimal false h, State.step, startValue, closeNumeral_toOption]
  | _ => cases h

/-- A numeral behind a minus sign is read as its number. -/
theorem step_numeral
    {kind : Token.Kind} {cs : List Char} (h : Numeral kind cs) (start : Nat)
    (pending : List Pending) :
  ((State.numeral pending).step ⟨kind, cs, start⟩).toOption
    = (Number.ofNumeral? true cs).map fun x => close (.number x) pending
  := by
  cases kind with
  | integer => rw [ofNumeral?_integer true h, State.step, closeNumeral_toOption]
  | decimal => rw [ofNumeral?_decimal true h, State.step, closeNumeral_toOption]
  | _ => cases h

/-- Reading a numeral. -/
theorem readFrom_numeral
    {kind : Token.Kind} {cs rest : List Char} (h : Numeral kind cs) (pending : List Pending)
    (start : Nat) (hrest : Delimiting rest) :
  (readFrom (.value pending) (Token.scan start 0 (cs ++ rest))).toOption
    = (Number.ofNumeral? false cs).bind fun x =>
        (close (.number x) pending).resume (Token.scan (start + byteLength cs) 0 rest)
  := by
  rw [Token.scan_numeral h start hrest, readFrom_cons, startValue_numeral h, Option.bind_map]
  rfl

/-- Reading a numeral behind a minus sign. -/
theorem readFrom_minus
    {kind : Token.Kind} {cs rest : List Char} (h : Numeral kind cs) (pending : List Pending)
    (start : Nat) (hrest : Delimiting rest) :
  (readFrom (.value pending) (Token.scan start 0 ('-' :: cs ++ rest))).toOption
    = (Number.ofNumeral? true cs).bind fun x =>
        (close (.number x) pending).resume (Token.scan (start + byteLength ('-' :: cs)) 0 rest)
  := by
  rw [List.cons_append, Token.scan_mark start _ rfl rfl, readFrom_cons]
  change (readFrom (.numeral pending) _).toOption = _
  rw [Token.scan_numeral h _ hrest, readFrom_cons, step_numeral h, Option.bind_map,
    byteLength_cons, Nat.add_assoc]
  rfl

/-- A finite number whose text is a numeral is read back from it. -/
theorem reread?_of_numeral
    {x : Number} {kind : Token.Kind} (hx : x.isFinite) (h : Numeral kind x.chars) :
  x.reread? = Number.ofNumeral? false x.chars
  := by
  obtain ⟨c, ds, hchars, hc⟩ := h.exists_cons
  rw [Number.reread?, if_pos hx, hchars]
  split
  · rename_i heq
    cases heq
    cases hc
  · rfl

/-- A finite number whose text has a minus sign is read back from what is behind it. -/
theorem reread?_of_minus
    {x : Number} {cs : List Char} (hx : x.isFinite) (h : x.chars = '-' :: cs) :
  x.reread? = Number.ofNumeral? true cs
  := by
  rw [Number.reread?, if_pos hx, h]
  rfl

/-- Reading the text of a number. -/
theorem readFrom_number
    (x : Number) (pending : List Pending) (start : Nat) {rest : List Char}
    (hrest : Delimiting rest) :
  (readFrom (.value pending) (Token.scan start 0 (x.chars ++ rest))).toOption
    = x.reread?.bind fun y =>
        (close (.number y) pending).resume (Token.scan (start + byteLength x.chars) 0 rest)
  := by
  by_cases hx : x.isFinite
  · obtain ⟨kind, cs, hcs, hchars | hchars⟩ := Number.chars_of_isFinite hx
    · subst hchars
      rw [reread?_of_numeral hx hcs]
      apply readFrom_numeral hcs _ _ hrest
    · rw [reread?_of_minus hx hchars, hchars]
      apply readFrom_minus hcs _ _ hrest
  · have hreread : x.reread? = none := by
      rw [Number.reread?, if_neg hx]
    rw [hreread]
    rcases Number.chars_of_not_isFinite (Bool.eq_false_iff.2 hx) with hchars | hchars | hchars
    · rw [hchars]
      rfl
    · rw [hchars]
      rfl
    · rw [hchars]
      rfl

/-! ### Lists -/

/-- The token that no other character than a closing bracket begins is no such bracket. -/
theorem longest_ne_rightBracket {c : Char} (cs : List Char) (h : c ≠ ']') :
  (Token.longest c cs).1 ≠ .rightBracket
  := by
  unfold Token.longest
  split
  · simp only []
    split <;> exact Token.Kind.noConfusion
  · split
    · split <;> exact Token.Kind.noConfusion
    · split
      · split <;> exact Token.Kind.noConfusion
      · unfold Token.punctuation?
        split <;> first | exact Token.Kind.noConfusion | exact absurd rfl h

/-- A character that is neither a blank nor a closing bracket. -/
def Opens (c : Char) : Prop :=
  Token.isBlank c = false ∧ c ≠ ']'

theorem opens_of_isDigit {c : Char} (h : c.isDigit) :
  Opens c
  := by
  constructor
  · exact Token.isBlank_of_isDigit h
  · rintro rfl
    cases h

theorem chars_opens (x : Number) :
  ∃ c cs, x.chars = c :: cs ∧ Opens c
  := by
  by_cases hx : x.isFinite
  · obtain ⟨kind, cs, hcs, hchars | hchars⟩ := Number.chars_of_isFinite hx
    · obtain ⟨c, ds, rfl, hc⟩ := hcs.exists_cons
      exact ⟨c, ds, hchars, opens_of_isDigit hc⟩
    · exact ⟨'-', cs, hchars, rfl, by decide⟩
  · rcases Number.chars_of_not_isFinite (Bool.eq_false_iff.2 hx) with hchars | hchars | hchars
    · exact ⟨_, _, hchars, rfl, by decide⟩
    · exact ⟨_, _, hchars, rfl, by decide⟩
    · exact ⟨_, _, hchars, rfl, by decide⟩

theorem codeChars_opens (v : Value) :
  ∃ c cs, v.codeChars = c :: cs ∧ Opens c
  := by
  cases v with
  | number x => apply chars_opens
  | list vs =>
    cases vs with
    | nil => exact ⟨'[', _, rfl, rfl, by decide⟩
    | cons v vs => exact ⟨'[', _, rfl, rfl, by decide⟩
  | die x f => exact ⟨'{', _, rfl, rfl, by decide⟩

/-- An element of a list is read as a value within the list. -/
theorem readFrom_element
    (v : Value) (items : List Value) (pending : List Pending) (start : Nat) (rest : List Char) :
  readFrom (.item items pending) (Token.scan start 0 (v.codeChars ++ rest))
    = readFrom (.value (.list items :: pending)) (Token.scan start 0 (v.codeChars ++ rest))
  := by
  obtain ⟨c, cs, hcode, hblank, hbracket⟩ := codeChars_opens v
  rw [hcode, List.cons_append, Token.scan]
  simp only [hblank, Bool.false_eq_true, if_false]
  apply readFrom_item
  apply longest_ne_rightBracket _ hbracket

/-- A comma or a bracket delimits what is before it. -/
theorem delimiting_codeRest (vs : List Value) (rest : List Char) :
  Delimiting (codeRest vs ++ rest)
  := by
  cases vs with
  | nil => exact .cons _ rfl (by decide)
  | cons v vs => exact .cons _ rfl (by decide)

/-! ### Values -/

section

/-- The code of a value is read as what it is reread as, whatever is open and comes after. -/
def Reads (code : List Char) (w? : Option Value) : Prop :=
  ∀ pending start rest, Delimiting rest →
    (readFrom (.value pending) (Token.scan start 0 (code ++ rest))).toOption
      = w?.bind fun w =>
          (close w pending).resume (Token.scan (start + byteLength code) 0 rest)

/-- The code of a list behind an element is read as what its elements are reread as. -/
def ReadsRest (code : List Char) (ws? : Option (List Value)) : Prop :=
  ∀ items pending start rest,
    (readFrom (.separator items pending) (Token.scan start 0 (code ++ rest))).toOption
      = ws?.bind fun ws =>
          (close (.list (items.reverse ++ ws)) pending).resume
            (Token.scan (start + byteLength code) 0 rest)

/-- The elements of a list, within the list. -/
theorem readFrom_elements
    {v : Value} {vs : List Value} (hv : Reads v.codeChars v.reread?)
    (hvs : ReadsRest (codeRest vs) (rereadAll? vs)) (items : List Value)
    (pending : List Pending) (start : Nat) (rest : List Char) :
  (readFrom (.item items pending)
      (Token.scan start 0 (v.codeChars ++ (codeRest vs ++ rest)))).toOption
    = (rereadAll? (v :: vs)).bind fun ws =>
        (close (.list (items.reverse ++ ws)) pending).resume
          (Token.scan (start + byteLength (v.codeChars ++ codeRest vs)) 0 rest)
  := by
  rw [readFrom_element, hv _ _ _ (delimiting_codeRest vs rest), rereadAll?, Option.bind_assoc]
  congr 1
  funext w
  change (readFrom (.separator (w :: items) pending) _).toOption = _
  rw [hvs, Option.bind_map, byteLength_append, Nat.add_assoc]
  simp only [Function.comp_def, List.reverse_cons, List.append_assoc, List.singleton_append]

/-- A list with a first element. -/
theorem reads_cons
    {v : Value} {vs : List Value} (hv : Reads v.codeChars v.reread?)
    (hvs : ReadsRest (codeRest vs) (rereadAll? vs)) :
  Reads ('[' :: (v.codeChars ++ codeRest vs)) ((rereadAll? (v :: vs)).map .list)
  := by
  intro pending start rest hrest
  rw [List.cons_append, List.append_assoc, Token.scan_mark start _ rfl rfl, readFrom_cons]
  change (readFrom (.item [] pending) _).toOption = _
  rw [readFrom_elements hv hvs, Option.bind_map, byteLength_cons, Nat.add_assoc]
  rfl

theorem reads_nil :
  Reads (Value.list []).codeChars (Value.list []).reread?
  := by
  intro pending start rest hrest
  rw [Value.codeChars, List.cons_append, Token.scan_mark start _ rfl rfl, readFrom_cons]
  change (readFrom (.item [] pending) _).toOption = _
  rw [List.cons_append, Token.scan_mark _ _ rfl rfl, readFrom_cons, byteLength_cons,
    ← Nat.add_assoc]
  rfl

theorem readsRest_nil :
  ReadsRest (codeRest []) (rereadAll? [])
  := by
  intro items pending start rest
  rw [rereadAll?, Option.bind_some, List.append_nil, codeRest, List.cons_append,
    Token.scan_mark start _ rfl rfl, readFrom_cons]
  rfl

theorem readsRest_cons
    {v : Value} {vs : List Value} (hv : Reads v.codeChars v.reread?)
    (hvs : ReadsRest (codeRest vs) (rereadAll? vs)) :
  ReadsRest (codeRest (v :: vs)) (rereadAll? (v :: vs))
  := by
  intro items pending start rest
  rw [codeRest, List.cons_append, List.append_assoc, Token.scan_mark start _ rfl rfl,
    readFrom_cons]
  change (readFrom (.item items pending) _).toOption = _
  rw [readFrom_elements hv hvs, byteLength_cons, Nat.add_assoc]

/-- A closing brace puts a die down. -/
theorem readFrom_brace
    (x g : Value) (pending : List Pending) (start : Nat) (rest : List Char) :
  (readFrom (.brace x g pending) (Token.scan start 0 ('}' :: rest))).toOption
    = (Die.ofValues x g).toOption.bind fun d =>
        (close d.toValue pending).resume (Token.scan (start + '}'.utf8Size) 0 rest)
  := by
  rw [Token.scan_mark start _ rfl rfl, readFrom_cons, State.step]
  cases Die.ofValues x g <;> rfl

/-- The faces of a die behind its outcome. -/
theorem readFrom_outcomeComma
    {f : Faces} (hf : Reads f.codeChars f.reread?) (x : Value) (pending : List Pending)
    (start : Nat) (rest : List Char) :
  (readFrom (.outcomeComma x pending)
      (Token.scan start 0 (',' :: (f.codeChars ++ '}' :: rest)))).toOption
    = f.reread?.bind fun g => (Die.ofValues x g).toOption.bind fun d =>
        (close d.toValue pending).resume
          (Token.scan (start + byteLength (',' :: (f.codeChars ++ ['}']))) 0 rest)
  := by
  rw [Token.scan_mark start _ rfl rfl, readFrom_cons]
  change (readFrom (.value (.faces x :: pending)) _).toOption = _
  rw [hf _ _ _ (.cons rest rfl (by decide))]
  congr 1
  funext g
  change (readFrom (.brace x g pending) _).toOption = _
  rw [readFrom_brace]
  simp only [byteLength_cons, byteLength_append, byteLength_nil, Nat.add_zero, Nat.add_assoc]

/-- A die is read as one that is put down with its outcome and its faces read back. -/
theorem reads_die
    (x : Number) {f : Faces} (hf : Reads f.codeChars f.reread?) :
  Reads (Value.die x f).codeChars (Value.die x f).reread?
  := by
  intro pending start rest hrest
  have hcode : (Value.die x f).codeChars ++ rest
      = '{' :: '!' :: 'd' :: 'i' :: 'e' :: ','
          :: (x.chars ++ (',' :: (f.codeChars ++ '}' :: rest))) := by
    rw [Value.codeChars]
    simp only [List.cons_append, List.append_assoc, List.nil_append]
  rw [hcode, Token.scan_mark start _ rfl rfl, readFrom_cons]
  change (readFrom (.word pending) _).toOption = _
  rw [Token.scan_die, readFrom_cons]
  change (readFrom (.wordComma pending) _).toOption = _
  rw [Token.scan_mark _ _ rfl rfl, readFrom_cons]
  change (readFrom (.value (.outcome :: pending)) _).toOption = _
  rw [readFrom_number x _ _ (.cons _ rfl (by decide)), Value.reread?, Option.bind_assoc]
  congr 1
  funext y
  change (readFrom (.outcomeComma (.number y) pending) _).toOption = _
  rw [readFrom_outcomeComma hf, Option.bind_assoc]
  congr 1
  funext g
  rw [Option.bind_map, Value.codeChars]
  simp only [byteLength_cons, byteLength_append, byteLength_nil, Nat.add_zero, Nat.add_assoc]
  rfl

end

mutual

theorem reads_code : ∀ v : Value,
  Reads v.codeChars v.reread?
  | .number x => by
    intro pending start rest hrest
    rw [Value.codeChars, readFrom_number x pending start hrest, Value.reread?, Option.bind_map]
    rfl
  | .list [] => reads_nil
  | .list (v :: vs) => reads_cons (reads_code v) (readsRest_code vs)
  | .die x f => reads_die x (reads_faces f)

theorem reads_faces : ∀ f : Faces,
  Reads f.codeChars f.reread?
  | .upTo n _ => by
    intro pending start rest hrest
    rw [Faces.codeChars, readFrom_numeral (.toDigits n) pending start hrest, Faces.reread?,
      Option.bind_map]
    rfl
  | .listed v vs => reads_cons (reads_code v) (readsRest_code vs)

theorem readsRest_code : ∀ vs : List Value,
  ReadsRest (codeRest vs) (rereadAll? vs)
  | [] => readsRest_nil
  | v :: vs => readsRest_cons (reads_code v) (readsRest_code vs)

end

/-! ### Texts -/

/-- What the code of a value denotes is what the value is reread as. -/
theorem ofText_code (v : Value) :
  (ofText v.code).toOption = v.reread?
  := by
  have hread : (read (Token.ofText v.codeChars)).toOption = v.reread?.map fun w => (w, []) := by
    have hcode := reads_code v [] 0 [] .nil
    rw [List.append_nil] at hcode
    rw [read, Token.ofText, hcode]
    cases v.reread? <;> rfl
  have htokens : (ofTokens (Token.ofText v.codeChars)).toOption = v.reread? := by
    rw [ofTokens]
    cases hr : read (Token.ofText v.codeChars) with
    | error e =>
      rw [hr] at hread
      cases hv : v.reread? with
      | none => rfl
      | some w =>
        rw [hv] at hread
        cases hread
    | ok p =>
      rw [hr] at hread
      cases hv : v.reread? with
      | none =>
        rw [hv] at hread
        cases hread
      | some w =>
        rw [hv] at hread
        cases hread
        rfl
  rw [← htokens, ofText, code, String.toList_ofList]
  cases ofTokens (Token.ofText v.codeChars) <;> rfl

end Value

end Dice
