import Dice.Decimal.Reading
import Dice.Value.ReadError

/-!
# Reading values

A value is read one token at a time. Between two tokens the reader knows what may come next and
the lists and dice it stands in, and each token either opens, continues or closes one of these.
The last token of a value ends the reading at once: what comes after it is never looked at.
-/

namespace Dice.Value

/-- A list or a die that is open, with what has been read of it. Elements are kept in reverse. -/
inductive Pending where
  | list (items : List Value)
  | outcome
  | faces (outcome : Value)

/-- What has to come next, within open lists and dice, innermost first. -/
inductive State where
  /-- A value. -/
  | value (pending : List Pending)
  /-- An element of a list, or its end. -/
  | item (items : List Value) (pending : List Pending)
  /-- A comma after an element, or the end of the list. -/
  | separator (items : List Value) (pending : List Pending)
  /-- The numeral after a minus sign. -/
  | numeral (pending : List Pending)
  /-- The word after an opening brace. -/
  | word (pending : List Pending)
  /-- The comma after the word. -/
  | wordComma (pending : List Pending)
  /-- The comma after the outcome of a die. -/
  | outcomeComma (outcome : Value) (pending : List Pending)
  /-- The closing brace after the faces of a die. -/
  | brace (outcome faces : Value) (pending : List Pending)

/-- What a token leads to: more to read, or a whole value. -/
inductive Progress where
  | next (state : State)
  | done (value : Value)

/-- The tokens that begin a value. -/
def starts : List Token.Kind :=
  [.integer, .decimal, .minus, .leftBracket, .leftBrace]

/-- The tokens an error suggests. -/
def State.expected : State → List Token.Kind
  | value _ => starts
  | item _ _ => starts
  | separator _ _ => [.rightBracket]
  | numeral _ => [.integer, .decimal]
  | word _ => [.die]
  | wordComma _ => [.comma]
  | outcomeComma _ _ => [.comma]
  | brace _ _ _ => [.rightBrace]

/-- The cause of an error at a token where others were expected. -/
def unexpected (expected : List Token.Kind) (t : Token) : ReadError.Cause :=
  match t.kind with
  | .stray => .unexpectedText expected
  | kind => .unexpectedToken (some kind) expected

/-- What a finished value leads to. -/
def close (v : Value) : List Pending → Progress
  | [] => .done v
  | .list items :: pending => .next (.separator (v :: items) pending)
  | .outcome :: pending => .next (.outcomeComma v pending)
  | .faces x :: pending => .next (.brace x v pending)

/-- The double nearest to a numeral, unless it lies beyond the finite doubles. -/
def ofDecimal? (negative : Bool) (cs : List Char) : Option Number :=
  (Decimal.ofNumeral? cs).bind fun d =>
    let x := d.toFloat
    if x.isFinite then some (.float (if negative then -x else x)) else none

/-- The number of an integer token, a double where it does not fit the 64-bit integers. -/
def ofInteger? (negative : Bool) (cs : List Char) : Option Number :=
  let n : Int := Nat.ofDigitChars 10 cs 0
  match int64? (if negative then -n else n) with
  | some k => some (.int k)
  | none => ofDecimal? negative cs

/-- What a numeral leads to. -/
def closeNumeral (negative : Bool) (x? : Bool → List Char → Option Number) (t : Token)
    (pending : List Pending) : Except ReadError.Cause Progress :=
  match x? negative t.chars with
  | some x => .ok (close (.number x) pending)
  | none => .error .outOfRange

/-- What the first token of a value leads to. -/
def startValue (t : Token) (pending : List Pending) : Except ReadError.Cause Progress :=
  match t.kind with
  | .minus => .ok (.next (.numeral pending))
  | .integer => closeNumeral false ofInteger? t pending
  | .decimal => closeNumeral false ofDecimal? t pending
  | .leftBracket => .ok (.next (.item [] pending))
  | .leftBrace => .ok (.next (.word pending))
  | _ => .error (unexpected starts t)

/-- What a token leads to. -/
def State.step (state : State) (t : Token) : Except ReadError.Cause Progress :=
  match state with
  | .value pending => startValue t pending
  | .item items pending =>
    match t.kind with
    | .rightBracket => .ok (close (.list items.reverse) pending)
    | _ => startValue t (.list items :: pending)
  | .separator items pending =>
    match t.kind with
    | .comma => .ok (.next (.item items pending))
    | .rightBracket => .ok (close (.list items.reverse) pending)
    | _ => .error (unexpected state.expected t)
  | .numeral pending =>
    match t.kind with
    | .integer => closeNumeral true ofInteger? t pending
    | .decimal => closeNumeral true ofDecimal? t pending
    | _ => .error (unexpected state.expected t)
  | .word pending =>
    match t.kind with
    | .die => .ok (.next (.wordComma pending))
    | _ => .error (unexpected state.expected t)
  | .wordComma pending =>
    match t.kind with
    | .comma => .ok (.next (.value (.outcome :: pending)))
    | _ => .error (unexpected state.expected t)
  | .outcomeComma x pending =>
    match t.kind with
    | .comma => .ok (.next (.value (.faces x :: pending)))
    | _ => .error (unexpected state.expected t)
  | .brace x f pending =>
    match t.kind with
    | .rightBrace =>
      match Die.ofValues x f with
      | .ok d => .ok (close d.toValue pending)
      | .error why => .error (.invalidDie why)
    | _ => .error (unexpected state.expected t)

/-- An error at a token, or at the end of the tokens. -/
structure Fault where
  cause : ReadError.Cause
  token : Option Token

/-- The error of a state where the tokens end. -/
def State.ended (state : State) : Fault :=
  ⟨.unexpectedToken none state.expected, none⟩

/-- Reads on from a state to the end of a value, which is returned with the tokens after it. -/
def readFrom : State → List Token → Except Fault (Value × List Token)
  | state, [] => .error state.ended
  | state, t :: ts =>
    match state.step t with
    | .error cause => .error ⟨cause, t⟩
    | .ok (.next state) => readFrom state ts
    | .ok (.done v) => .ok (v, ts)

/-- Reads a value off the head of some tokens. -/
def read (ts : List Token) : Except Fault (Value × List Token) :=
  readFrom (.value []) ts

/-- The value that all of the tokens make up. -/
def ofTokens (ts : List Token) : Except Fault Value :=
  match read ts with
  | .error e => .error e
  | .ok (v, []) => .ok v
  | .ok (_, t :: _) => .error ⟨unexpected [] t, t⟩

/-- Reads on to the end of the tokens: from within a value, or from between two. -/
def sequenceFrom : Option State → List Token → Except Fault (List Value)
  | none, [] => .ok []
  | some state, [] => .error state.ended
  | state?, t :: ts =>
    match (state?.getD (.value [])).step t with
    | .error cause => .error ⟨cause, t⟩
    | .ok (.next state) => sequenceFrom (some state) ts
    | .ok (.done v) =>
      match sequenceFrom none ts with
      | .error e => .error e
      | .ok vs => .ok (v :: vs)

/-- The values that the tokens make up one after another. -/
def sequenceOfTokens (ts : List Token) : Except Fault (List Value) :=
  sequenceFrom none ts

/-- The place of a fault in the text. -/
def Fault.locate (e : Fault) (text : List Char) : ReadError :=
  match e.token with
  | some t => ⟨e.cause, t.start, t.stop, t.chars⟩
  | none => ⟨e.cause, byteLength text, byteLength text, []⟩

/-- The value a text denotes. -/
def ofText (s : String) : Except ReadError Value :=
  let cs := s.toList
  (ofTokens (Token.ofText cs)).mapError (·.locate cs)

/-- The values a text denotes one after another. -/
def sequenceOfText (s : String) : Except ReadError (List Value) :=
  let cs := s.toList
  (sequenceOfTokens (Token.ofText cs)).mapError (·.locate cs)

end Dice.Value
