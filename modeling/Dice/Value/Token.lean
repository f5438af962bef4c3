/-!
# Tokens

A text is cut into numerals, the word `!die` and punctuation, always the longest that fits. Blanks
between them are dropped, and a character that begins no token is a token of its own. Positions
are counted in UTF-8 bytes.
-/

namespace Dice

/-- The kinds of tokens. -/
inductive Token.Kind where
  | integer
  | decimal
  | minus
  | leftBracket
  | rightBracket
  | leftBrace
  | rightBrace
  | comma
  | die
  | stray
deriving DecidableEq

/-- The name of a kind in messages. -/
def Token.Kind.name : Token.Kind → String
  | integer => "<integer>"
  | decimal => "<decimal>"
  | minus => "'-'"
  | leftBracket => "'['"
  | rightBracket => "']'"
  | leftBrace => "'\x7b'"
  | rightBrace => "'\x7d'"
  | comma => "','"
  | die => "'!die'"
  | stray => "<error>"

/-- A token, its characters and the byte it starts at. -/
structure Token where
  kind : Token.Kind
  chars : List Char
  start : Nat
deriving DecidableEq

/-- The length of a text in bytes. -/
def byteLength : List Char → Nat
  | [] => 0
  | c :: cs => c.utf8Size + byteLength cs

namespace Token

/-- The byte after a token. -/
def stop (t : Token) : Nat :=
  t.start + byteLength t.chars

/-- The blanks that may stand between tokens. -/
def isBlank (c : Char) : Bool :=
  c == ' ' || c == '\t' || c == '\r' || c == '\n'

/-- The kind of a token that is a single character. -/
def punctuation? : Char → Option Kind
  | '-' => some .minus
  | '[' => some .leftBracket
  | ']' => some .rightBracket
  | '{' => some .leftBrace
  | '}' => some .rightBrace
  | ',' => some .comma
  | _ => none

/-- The longest token at the head of `c :: cs`, as its kind and the number of its characters after
the first. -/
def longest (c : Char) (cs : List Char) : Kind × Nat :=
  if c.isDigit then
    let whole := cs.takeWhile Char.isDigit
    match cs.dropWhile Char.isDigit with
    | '.' :: rest => (.decimal, whole.length + 1 + (rest.takeWhile Char.isDigit).length)
    | _ => (.integer, whole.length)
  else if c == '.' then
    match cs.takeWhile Char.isDigit with
    | [] => (.stray, 0)
    | places => (.decimal, places.length)
  else if c == '!' then
    match cs with
    | 'd' :: 'i' :: 'e' :: _ => (.die, 3)
    | _ => (.stray, 0)
  else ((punctuation? c).getD .stray, 0)

/-- The tokens of a text that starts at byte `start`, of which the first `skip` characters belong
to a token already found. -/
def scan (start : Nat) : (skip : Nat) → List Char → List Token
  | _, [] => []
  | skip + 1, c :: cs => scan (start + c.utf8Size) skip cs
  | 0, c :: cs =>
    if isBlank c then scan (start + c.utf8Size) 0 cs
    else
      let (kind, more) := longest c cs
      ⟨kind, c :: cs.take more, start⟩ :: scan (start + c.utf8Size) more cs

/-- The tokens of a text. -/
def ofText (cs : List Char) : List Token :=
  scan 0 0 cs

end Token

end Dice
