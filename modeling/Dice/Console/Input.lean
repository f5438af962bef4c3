/-!
# Input

The input of a console is a row of bytes, cut into lines at the line feeds. A line that is not
UTF-8 ends it.
-/

namespace Dice.Console

/-- The text of some bytes, if they are UTF-8. -/
def decode? (bytes : List UInt8) : Option String :=
  String.fromUTF8? ⟨bytes.toArray⟩

/-- The bytes between line feeds, behind those of a line already begun, which are given from the
last one back. A last line without a line feed counts unless it is empty. -/
def cutFrom (line : List UInt8) : List UInt8 → List (List UInt8)
  | [] => if line.isEmpty then [] else [line.reverse]
  | b :: bs => if b = 10 then line.reverse :: cutFrom [] bs else cutFrom (b :: line) bs

/-- The lines before the first one that is not UTF-8. -/
def decodeLines : List (List UInt8) → List String
  | [] => []
  | line :: rest =>
    match decode? line with
    | some s => s :: decodeLines rest
    | none => []

/-- The lines of an input. -/
def lines (input : List UInt8) : List String :=
  decodeLines (cutFrom [] input)

end Dice.Console
