import Dice.Binary

/-!
# Numbers

A number is a 64-bit integer or a double. Integer arithmetic is exact while the result fits;
a result that does not fit is computed in doubles instead. Two integers are compared exactly,
and any other two numbers as doubles.
-/

namespace Dice

/-- A 64-bit integer or a double. -/
inductive Number where
  | int (n : Int64)
  | float (x : Float)

/-- The 64-bit integer equal to `n`, if there is one. -/
def int64? (n : Int) : Option Int64 :=
  if Int64.minValue.toInt ≤ n ∧ n ≤ Int64.maxValue.toInt then some (.ofInt n) else none

/-- The 64-bit integer nearest to `n`. -/
def clampInt64 (n : Int) : Int64 :=
  .ofInt (max Int64.minValue.toInt (min n Int64.maxValue.toInt))

namespace Number

instance : Inhabited Number := ⟨.int 0⟩

/-- The number zero. -/
def zero : Number := .int 0

/-- The double nearest to an integer. -/
def floatOfInt (n : Int64) : Float :=
  let x := n.toInt.natAbs.toUInt64.toFloat
  if n < 0 then -x else x

/-- The number as a double. -/
def toFloat : Number → Float
  | int n => floatOfInt n
  | float x => x

/-- The number cut off toward zero. What lies beyond the 64-bit integers goes to the nearer end
of their range, and a NaN to zero. -/
def toInt : Number → Int64
  | int n => n
  | float x =>
    if x.isNaN then 0
    else
      match Binary.ofFloat? x with
      | some b => clampInt64 b.truncate
      | none => if x < 0 then Int64.minValue else Int64.maxValue

/-- Whether the number is an integer. An infinity or a NaN is not. -/
def isIntegral : Number → Bool
  | int _ => true
  | float x => (Binary.ofFloat? x).any Binary.isIntegral

/-- The integer `n` where it fits, and otherwise the double `x`. -/
def intOr (n : Int) (x : Float) : Number :=
  match int64? n with
  | some k => int k
  | none => float x

/-- Addition, in doubles when a summand is a double or the integer sum does not fit. -/
def add : Number → Number → Number
  | int a, int b => intOr (a.toInt + b.toInt) (floatOfInt a + floatOfInt b)
  | a, b => float (a.toFloat + b.toFloat)

instance : Add Number := ⟨add⟩

/-- The opposite number, a double where no 64-bit integer is opposite. -/
def neg : Number → Number
  | int a => intOr (-a.toInt) (-floatOfInt a)
  | float x => float (-x)

instance : Neg Number := ⟨neg⟩

/-- The absolute value, a double where no 64-bit integer is equal to it. -/
def abs : Number → Number
  | int a => intOr a.toInt.natAbs (floatOfInt a).abs
  | float x => float x.abs

/-- The sum from the left, starting at zero. -/
def sum (xs : List Number) : Number :=
  xs.foldl (· + ·) zero

/-- The order of two doubles; a NaN has none. -/
def compareFloat? (x y : Float) : Option Ordering :=
  if x < y then some .lt else if x == y then some .eq else if y < x then some .gt else none

/-- The order of two numbers: exact between integers, and otherwise that of doubles. -/
def compare? : Number → Number → Option Ordering
  | int a, int b => some (compare a.toInt b.toInt)
  | a, b => compareFloat? a.toFloat b.toFloat

/-- Numbers are equal when they compare equal, whatever their kinds. -/
instance : BEq Number := ⟨fun a b => a.compare? b == some .eq⟩

/-- Whether `x` is a multiple of `y`. Nothing is a multiple of zero. -/
def isMultipleOf (x y : Number) : Bool :=
  if y == zero then false
  else
    match x, y with
    | int a, int b => a.toInt % b.toInt == 0
    | _, _ =>
      match Binary.ofFloat? x.toFloat, Binary.ofFloat? y.toFloat with
      | some a, some b => a.isMultipleOf b
      | some a, none => !y.toFloat.isNaN && a.significand == 0
      | none, _ => false

end Number

end Dice
