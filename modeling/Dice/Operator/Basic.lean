import Dice.Comparator

/-!
# Operators

An operator throws dice, redraws some of them, or chooses among them. It is written with a symbol,
of which some have a shorthand.
-/

namespace Dice

/-- How elements that satisfy a comparison are drawn anew: in the place of the element or, if it
is kept, behind it, and once or for as long as the draws satisfy the comparison. -/
structure Redraw where
  keeps : Bool
  recursive : Bool
deriving DecidableEq

/-- The letters of a way to redraw. -/
def Redraw.symbol : Redraw → String
  | ⟨false, false⟩ => "r"
  | ⟨false, true⟩ => "rr"
  | ⟨true, false⟩ => "x"
  | ⟨true, true⟩ => "xr"

/-- Whether chosen elements are kept or dropped. -/
inductive Action where
  | keep
  | drop
deriving DecidableEq

/-- Whether elements are chosen from the top or from the bottom. -/
inductive Rank where
  | highest
  | lowest
deriving DecidableEq

/-- The operators on values. -/
inductive Operator where
  /-- Throws a number of dice. -/
  | roll
  /-- Throws dice until one satisfies the comparison. -/
  | rollUntil (cmp : Comparator)
  /-- Draws anew what satisfies the comparison. -/
  | redraw (how : Redraw) (cmp : Comparator)
  /-- Chooses a number of elements by rank. -/
  | ranked (action : Action) (rank : Rank)
  /-- Chooses the elements that satisfy the comparison. -/
  | filtered (action : Action) (cmp : Comparator)
deriving DecidableEq

namespace Operator

/-- The symbol of an operator. -/
def symbol : Operator → String
  | roll => "d"
  | rollUntil cmp => "u" ++ cmp.symbol
  | redraw how cmp => how.symbol ++ cmp.symbol
  | ranked .keep .highest => "kh"
  | ranked .keep .lowest => "kl"
  | ranked .drop .highest => "dh"
  | ranked .drop .lowest => "dl"
  | filtered .keep cmp => "k" ++ cmp.symbol
  | filtered .drop cmp => "d" ++ cmp.symbol

/-- The comparator of the rest of a symbol. -/
def comparator? (cs : List Char) : Option Comparator :=
  Comparator.ofSymbol? (.ofList cs)

/-- The comparator behind a way to redraw; none stands for equality. -/
def redrawComparator? : List Char → Option Comparator
  | [] => some .eq
  | cs => comparator? cs

/-- The operators that are written without a comparator. -/
def ofWord? : List Char → Option Operator
  | ['d'] => some roll
  | ['k'] => some (ranked .keep .highest)
  | ['k', 'h'] => some (ranked .keep .highest)
  | ['k', 'l'] => some (ranked .keep .lowest)
  | ['d', 'h'] => some (ranked .drop .highest)
  | ['d', 'l'] => some (ranked .drop .lowest)
  | _ => none

/-- The operators that are written with some letters and a comparator behind them. -/
def ofParts? (letters cs : List Char) : Option Operator :=
  match letters with
  | ['x', 'r'] => (redrawComparator? cs).map (redraw ⟨true, true⟩)
  | ['r', 'r'] => (redrawComparator? cs).map (redraw ⟨false, true⟩)
  | ['x'] => (redrawComparator? cs).map (redraw ⟨true, false⟩)
  | ['r'] => (redrawComparator? cs).map (redraw ⟨false, false⟩)
  | ['u'] => (comparator? cs).map rollUntil
  | ['k'] => (comparator? cs).map (filtered .keep)
  | ['d'] => (comparator? cs).map (filtered .drop)
  | _ => none

/-- The byte at which a text is cut: behind the letters of a redraw, or else behind its first
character. -/
def cut : List Char → Nat
  | 'x' :: 'r' :: _ => 2
  | 'r' :: 'r' :: _ => 2
  | c :: _ => c.utf8Size
  | [] => 0

/-- The characters before a byte and those from it on, unless it lies inside a character. -/
def splitAt? : (byte : Nat) → List Char → Option (List Char × List Char)
  | 0, cs => some ([], cs)
  | _, [] => none
  | n, c :: cs =>
    if c.utf8Size ≤ n then
      (splitAt? (n - c.utf8Size) cs).map fun (left, right) => (c :: left, right)
    else none

/-- The operator written with some characters: as a word, or else with its two parts. -/
def ofChars? (cs : List Char) : Option Operator :=
  (ofWord? cs).or ((splitAt? (cut cs) cs).bind fun (letters, rest) => ofParts? letters rest)

/-- The operator written with a symbol or its shorthand. -/
def ofSymbol? (s : String) : Option Operator :=
  ofChars? s.toList

end Operator

end Dice
