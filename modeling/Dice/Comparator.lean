import Dice.Number.Basic

/-!
# Comparators

A comparator relates the total of an element, on the left, to a threshold. Beside the six orders
there is divisibility and its negation.
-/

namespace Dice

/-- A relation between a total and a threshold. -/
inductive Comparator where
  | eq
  | ne
  | lt
  | le
  | gt
  | ge
  | multiple
  | notMultiple
deriving DecidableEq

namespace Comparator

/-- All comparators. -/
def all : List Comparator :=
  [eq, ne, lt, le, gt, ge, multiple, notMultiple]

/-- The symbol a comparator is written with. -/
def symbol : Comparator → String
  | eq => "="
  | ne => "!="
  | lt => "<"
  | le => "<="
  | gt => ">"
  | ge => ">="
  | multiple => "%"
  | notMultiple => "!%"

/-- The comparator with a given symbol. -/
def ofSymbol? (s : String) : Option Comparator :=
  all.find? (·.symbol == s)

/-- The comparator of the opposite sense. A NaN satisfies neither an order nor its opposite. -/
def opposite : Comparator → Comparator
  | eq => ne
  | ne => eq
  | lt => ge
  | le => gt
  | gt => le
  | ge => lt
  | multiple => notMultiple
  | notMultiple => multiple

/-- Whether `x` stands in the relation to `y`. -/
def holds (cmp : Comparator) (x y : Number) : Bool :=
  match cmp with
  | eq => x == y
  | ne => !(x == y)
  | lt => x.compare? y == some .lt
  | le => (x.compare? y).any (·.isLE)
  | gt => x.compare? y == some .gt
  | ge => (x.compare? y).any (·.isGE)
  | multiple => x.isMultipleOf y
  | notMultiple => !x.isMultipleOf y

end Comparator

end Dice
