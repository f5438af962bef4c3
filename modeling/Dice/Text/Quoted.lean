import Dice.Text.Extender
import Dice.Text.Unprintable

/-!
# Quoted text

Text shown in a message stands in double quotes. A quote and a backslash are escaped, and so is
every character that could not be told from the page: the line controls by a letter, the others by
their code point.
-/

namespace Dice.Text

/-- A character as it stands between quotes. -/
def escape (c : Char) : List Char :=
  match c with
  | '"' => ['\\', '"']
  | '\\' => ['\\', '\\']
  | '\n' => ['\\', 'n']
  | '\r' => ['\\', 'r']
  | '\t' => ['\\', 't']
  | '\x00' => ['\\', '0']
  | c =>
    if isExtender c || isUnprintable c then
      '\\' :: 'u' :: '{' :: (Nat.toDigits 16 c.toNat ++ ['}'])
    else [c]

/-- A text between quotes. -/
def quote (cs : List Char) : List Char :=
  '"' :: (cs.flatMap escape ++ ['"'])

end Dice.Text
