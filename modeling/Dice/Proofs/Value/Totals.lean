import Dice.Proofs.Choice.Integral
import Dice.Proofs.Code.Settling

/-!
# Totals of integers

The numbers of a value are its own, those in its lists, and the outcomes of its dice; what is on the
faces of a die does not count. Integers are added up from the left in every list. As long as no sum
on the way leaves the 64-bit integers, in a list at whatever depth, the total is the exact sum of
all numbers of the value. As soon as one does, the total is a double.
-/

namespace Dice

mutual

/-- The numbers of a value from the left, with the outcomes of its dice among them. -/
def Value.numbers : Value → List Number
  | .number x => [x]
  | .list vs => allNumbers vs
  | .die x _ => [x]

/-- The numbers of some values. -/
def allNumbers : List Value → List Number
  | [] => []
  | v :: vs => v.numbers ++ allNumbers vs

end

/-- The sum of the integers among some numbers, however large. -/
def exactSum (xs : List Number) : Int :=
  (xs.map Number.integer).sum

/-- The sum of the magnitudes of the integers among some numbers. -/
def magnitudes (xs : List Number) : Nat :=
  (xs.map fun x => x.integer.natAbs).sum

/-- A sum on the way from the left in a list: in the value itself, or in an element at any depth. -/
inductive Value.PartialSum : Value → Int → Prop
  | here {front vs : List Value} :
    front <+: vs → PartialSum (.list vs) (exactSum (allNumbers front))
  | within {v : Value} {vs : List Value} {k : Int} :
    v ∈ vs → PartialSum v k → PartialSum (.list vs) k

/-- Whether an integer lies in the range of the 64-bit integers. -/
def FitsInt64 (k : Int) : Prop :=
  Int64.minValue.toInt ≤ k ∧ k ≤ Int64.maxValue.toInt

/-- All sums on the way in a value fit. -/
def Value.Fits (v : Value) : Prop :=
  ∀ k, v.PartialSum k → FitsInt64 k

/-- All sums on the way in some values fit, and so do those of the values behind a sum so far. -/
structure FitsFrom (sum : Int) (vs : List Value) : Prop where
  here {front : List Value} : front <+: vs → FitsInt64 (sum + exactSum (allNumbers front))
  within {v : Value} : v ∈ vs → v.Fits

/-! ### Sums -/

@[simp]
theorem exactSum_nil :
  exactSum [] = 0
  := rfl

@[simp]
theorem exactSum_append (xs ys : List Number) :
  exactSum (xs ++ ys) = exactSum xs + exactSum ys
  := by
  rw [exactSum, List.map_append, List.sum_append, exactSum, exactSum]

theorem exactSum_perm {xs ys : List Number} (h : xs.Perm ys) :
  exactSum xs = exactSum ys
  := (h.map Number.integer).sum_eq

theorem magnitudes_perm {xs ys : List Number} (h : xs.Perm ys) :
  magnitudes xs = magnitudes ys
  := (h.map _).sum_eq

theorem magnitudes_sublist {xs ys : List Number} (h : xs.Sublist ys) :
  magnitudes xs ≤ magnitudes ys
  := (h.map _).sum_le_sum fun _ _ => Nat.zero_le _

/-- The magnitude of a sum is at most the sum of the magnitudes. -/
theorem natAbs_exactSum_le (xs : List Number) :
  (exactSum xs).natAbs ≤ magnitudes xs
  := by
  induction xs with
  | nil => rfl
  | cons x xs ih =>
    rw [exactSum, magnitudes, List.map_cons, List.map_cons, List.sum_cons, List.sum_cons]
    apply (Int.natAbs_add_le _ _).trans
    apply Nat.add_le_add_left ih

theorem allNumbers_append (vs ws : List Value) :
  allNumbers (vs ++ ws) = allNumbers vs ++ allNumbers ws
  := by
  induction vs with
  | nil => rfl
  | cons v vs ih => rw [List.cons_append, allNumbers, allNumbers, ih, List.append_assoc]

/-- The numbers of an element are numbers of the list, in their order. -/
theorem numbers_sublist {v : Value} {vs : List Value} (h : v ∈ vs) :
  v.numbers.Sublist (allNumbers vs)
  := by
  obtain ⟨front, back, rfl⟩ := List.append_of_mem h
  rw [allNumbers_append, allNumbers]
  apply (List.sublist_append_left _ _).trans
  apply List.sublist_append_right

/-- No sum on the way exceeds the sum of the magnitudes. -/
theorem Value.PartialSum.natAbs_le {v : Value} {k : Int} (h : v.PartialSum k) :
  k.natAbs ≤ magnitudes v.numbers
  := by
  induction h with
  | @here front vs hfront =>
    obtain ⟨back, rfl⟩ := hfront
    apply (natAbs_exactSum_le _).trans
    apply magnitudes_sublist
    rw [numbers, allNumbers_append]
    apply List.sublist_append_left
  | within hv _ ih =>
    apply ih.trans
    apply magnitudes_sublist
    apply numbers_sublist hv

/-! ### Fitting -/

theorem FitsInt64.of_natAbs_le {k : Int} (h : k.natAbs ≤ Int64.maxValue.toInt) :
  FitsInt64 k
  := by
  change (k.natAbs : Int) ≤ 2 ^ 63 - 1 at h
  change -2 ^ 63 ≤ k ∧ k ≤ 2 ^ 63 - 1
  omega

theorem fitsInt64_toInt (n : Int64) :
  FitsInt64 n.toInt
  := ⟨n.minValue_le_toInt, n.toInt_le⟩

theorem Value.fits_number (x : Number) :
  (number x).Fits
  := by
  intro k h
  cases h

theorem Value.fits_die (x : Number) (f : Faces) :
  (die x f).Fits
  := by
  intro k h
  cases h

/-- The sums on the way in a list are those from zero. -/
theorem Value.fits_list_iff (vs : List Value) :
  (list vs).Fits ↔ FitsFrom 0 vs
  := by
  constructor
  · intro h
    constructor
    · intro front hfront
      rw [zero_add]
      apply h _ (.here hfront)
    · intro v hv k hk
      apply h k (.within hv hk)
  · rintro ⟨hhere, hwithin⟩ k hk
    cases hk with
    | here hfront =>
      rw [← zero_add (exactSum _)]
      apply hhere hfront
    | within hv hk => apply hwithin hv _ hk

theorem fitsFrom_nil_iff (sum : Int) :
  FitsFrom sum [] ↔ FitsInt64 sum
  := by
  constructor
  · intro h
    rw [← add_zero sum]
    apply h.here (List.prefix_refl [])
  · intro h
    constructor
    · intro front hfront
      obtain rfl := List.prefix_nil.1 hfront
      rwa [allNumbers, exactSum_nil, add_zero]
    · intro v hv
      cases hv

/-- The sums on the way in a list: the sum so far, those in the first element, and those from the
sum with this element on. -/
theorem fitsFrom_cons_iff (sum : Int) (v : Value) (vs : List Value) :
  FitsFrom sum (v :: vs)
    ↔ FitsInt64 sum ∧ v.Fits ∧ FitsFrom (sum + exactSum v.numbers) vs
  := by
  constructor
  · intro h
    refine ⟨?_, h.within List.mem_cons_self, ?_, ?_⟩
    · rw [← add_zero sum]
      apply h.here List.nil_prefix
    · intro front hfront
      have hcons : v :: front <+: v :: vs := List.cons_prefix_cons.2 ⟨rfl, hfront⟩
      rw [add_assoc, ← exactSum_append]
      exact h.here hcons
    · intro w hw
      apply h.within (List.mem_cons_of_mem v hw)
  · rintro ⟨hsum, hv, hrest⟩
    constructor
    · intro front hfront
      cases front with
      | nil => rwa [allNumbers, exactSum_nil, add_zero]
      | cons w front =>
        obtain ⟨rfl, hrestfront⟩ := List.cons_prefix_cons.1 hfront
        rw [allNumbers, exactSum_append, ← add_assoc]
        apply hrest.here hrestfront
    · intro w hw
      rcases List.mem_cons.1 hw with rfl | hw
      · exact hv
      · exact hrest.within hw

/-! ### Addition -/

namespace Number

/-- The sum of two integers, where it fits. -/
theorem add_of_fits {a b : Int64} (h : FitsInt64 (a.toInt + b.toInt)) :
  ∃ n : Int64, int a + int b = int n ∧ n.toInt = a.toInt + b.toInt
  := by
  have hsome : int64? (a.toInt + b.toInt) = some (.ofInt (a.toInt + b.toInt)) := if_pos h
  use .ofInt (a.toInt + b.toInt)
  constructor
  · change intOr _ _ = _
    rw [intOr, hsome]
  · apply toInt_of_int64? hsome

theorem add_of_not_fits {a b : Int64} (h : ¬ FitsInt64 (a.toInt + b.toInt)) :
  ∃ x, int a + int b = float x
  := by
  have hnone : int64? (a.toInt + b.toInt) = none := if_neg h
  use floatOfInt a + floatOfInt b
  change intOr _ _ = _
  rw [intOr, hnone]

theorem add_float (a : Number) (x : Float) :
  ∃ y, a + float x = float y
  := by
  cases a <;> exact ⟨_, rfl⟩

theorem float_add (x : Float) (b : Number) :
  ∃ y, float x + b = float y
  := ⟨_, rfl⟩

end Number

/-- A sum that has become a double remains one. -/
theorem totalFrom_float (x : Float) (vs : List Value) :
  ∃ y, Value.totalFrom (.float x) vs = .float y
  := by
  induction vs generalizing x with
  | nil => exact ⟨x, rfl⟩
  | cons v vs ih =>
    obtain ⟨y, hy⟩ := Number.float_add x v.total
    rw [Value.totalFrom, hy]
    apply ih y

/-! ### Totals -/

/-- The number of a one-element list of integers is an integer. -/
theorem exists_int_of_mem {x : Number} (h : ∀ y ∈ [x], y.isInt) :
  ∃ n : Int64, x = .int n ∧ n.toInt = exactSum [x]
  := by
  have hx := h x List.mem_cons_self
  cases x with
  | int n => exact ⟨n, rfl, (add_zero _).symm⟩
  | float x => cases hx

mutual

/-- Where all sums on the way fit, the total is the exact sum. -/
theorem Value.total_of_fits : ∀ (v : Value), (∀ x ∈ v.numbers, x.isInt) → v.Fits →
    ∃ n : Int64, v.total = .int n ∧ n.toInt = exactSum v.numbers
  | .number x, h, _ => exists_int_of_mem h
  | .die x _, h, _ => exists_int_of_mem h
  | .list vs, h, hfits => by
    obtain ⟨n, htotal, hn⟩ := totalFrom_of_fits 0 vs h ((Value.fits_list_iff vs).1 hfits)
    exact ⟨n, htotal, hn.trans (zero_add _)⟩

theorem totalFrom_of_fits : ∀ (acc : Int64) (vs : List Value), (∀ x ∈ allNumbers vs, x.isInt) →
    FitsFrom acc.toInt vs →
    ∃ n : Int64, Value.totalFrom (.int acc) vs = .int n
      ∧ n.toInt = acc.toInt + exactSum (allNumbers vs)
  | acc, [], _, _ => ⟨acc, rfl, (add_zero _).symm⟩
  | acc, v :: vs, h, hfits => by
    obtain ⟨hv, hvs⟩ := List.forall_mem_append.1 h
    obtain ⟨-, hfitsv, hrest⟩ := (fitsFrom_cons_iff _ v vs).1 hfits
    obtain ⟨m, htotal, hm⟩ := v.total_of_fits hv hfitsv
    have hsum : FitsInt64 (acc.toInt + m.toInt) := by
      rw [hm, ← add_zero (_ + _)]
      apply hrest.here List.nil_prefix
    obtain ⟨next, hadd, hnext⟩ := Number.add_of_fits hsum
    rw [hm] at hnext
    obtain ⟨n, hn, hexact⟩ := totalFrom_of_fits next vs hvs (hnext ▸ hrest)
    refine ⟨n, ?_, ?_⟩
    · rw [Value.totalFrom, htotal, hadd, hn]
    · rw [hexact, hnext, allNumbers, exactSum_append, add_assoc]

end

mutual

/-- Where a sum on the way does not fit, the total is a double. -/
theorem Value.total_of_not_fits : ∀ (v : Value), (∀ x ∈ v.numbers, x.isInt) → ¬ v.Fits →
    ∃ x, v.total = .float x
  | .number x, _, hfits => absurd (Value.fits_number x) hfits
  | .die x f, _, hfits => absurd (Value.fits_die x f) hfits
  | .list vs, h, hfits => totalFrom_of_not_fits 0 vs h (mt (Value.fits_list_iff vs).2 hfits)

theorem totalFrom_of_not_fits : ∀ (acc : Int64) (vs : List Value), (∀ x ∈ allNumbers vs, x.isInt) →
    ¬ FitsFrom acc.toInt vs → ∃ x, Value.totalFrom (.int acc) vs = .float x
  | acc, [], _, hfits => absurd ((fitsFrom_nil_iff _).2 (fitsInt64_toInt acc)) hfits
  | acc, v :: vs, h, hfits => by
    obtain ⟨hv, hvs⟩ := List.forall_mem_append.1 h
    rw [Value.totalFrom]
    by_cases hfitsv : v.Fits
    · obtain ⟨m, htotal, hm⟩ := v.total_of_fits hv hfitsv
      rw [htotal]
      by_cases hsum : FitsInt64 (acc.toInt + m.toInt)
      · obtain ⟨next, hadd, hnext⟩ := Number.add_of_fits hsum
        rw [hadd]
        apply totalFrom_of_not_fits next vs hvs
        intro hrest
        apply hfits
        apply (fitsFrom_cons_iff _ v vs).2
        rw [hnext, hm] at hrest
        exact ⟨fitsInt64_toInt acc, hfitsv, hrest⟩
      · obtain ⟨x, hadd⟩ := Number.add_of_not_fits hsum
        rw [hadd]
        apply totalFrom_float
    · obtain ⟨x, htotal⟩ := v.total_of_not_fits hv hfitsv
      obtain ⟨y, hadd⟩ := Number.add_float (.int acc) x
      rw [htotal, hadd]
      apply totalFrom_float

end

/-- The total of a value of integers is an integer exactly when no sum on the way, in a list at any
depth, leaves the 64-bit integers. It is then the exact sum of all numbers of the value, and
otherwise a double. Where the magnitudes of the numbers add up to no more than the greatest
integer, every value with these numbers, in whatever order and lists, has this sum as its total. -/
theorem Value.total_exact {v : Value} (h : ∀ x ∈ v.numbers, x.isInt) :
  ((∃ n, v.total = .int n) ↔ ∀ k, v.PartialSum k → FitsInt64 k)
    ∧ (∀ n, v.total = .int n → n.toInt = exactSum v.numbers)
    ∧ (∀ k, v.PartialSum k → ¬ FitsInt64 k → ∃ x, v.total = .float x)
    ∧ (magnitudes v.numbers ≤ Int64.maxValue.toInt → ∀ w : Value, w.numbers.Perm v.numbers →
      ∃ n : Int64, w.total = .int n ∧ n.toInt = exactSum v.numbers)
  := by
  have hfits : ∀ n, v.total = .int n → v.Fits := by
    intro n hn
    by_contra hnot
    obtain ⟨x, hx⟩ := v.total_of_not_fits h hnot
    cases hn.symm.trans hx
  refine ⟨⟨?_, ?_⟩, ?_, ?_, ?_⟩
  · rintro ⟨n, hn⟩
    exact hfits n hn
  · intro hall
    obtain ⟨n, hn, -⟩ := v.total_of_fits h hall
    exact ⟨n, hn⟩
  · intro n hn
    obtain ⟨m, hm, hexact⟩ := v.total_of_fits h (hfits n hn)
    cases hn.symm.trans hm
    exact hexact
  · intro k hk hnot
    apply v.total_of_not_fits h
    intro hall
    apply hnot (hall k hk)
  · intro hmax w hperm
    rw [← exactSum_perm hperm]
    apply w.total_of_fits
    · intro x hx
      apply h x (hperm.mem_iff.1 hx)
    · intro k hk
      apply FitsInt64.of_natAbs_le
      apply le_trans _ hmax
      rw [← magnitudes_perm hperm]
      exact_mod_cast hk.natAbs_le

/-- An integer, and a list that cancels out before it is added. -/
def Value.cancelling (n : Int64) : Value :=
  .list [.number (.int n),
    .list [.number (.int 1), .die (.int (-1)) (.listed (.number (.int (-1))) [])]]

/-- The same numbers, of which the first two are added before the third. -/
def Value.climbing (n : Int64) : Value :=
  .list [.list [.number (.int n), .number (.int 1)], .number (.int (-1))]

/-- The greatest integer is the total of the one, and too large for the other, which is a double
although the exact sum is the same. With a small integer, both have the same total. -/
theorem Value.total_exact_cancelling :
  (∀ x ∈ (cancelling Int64.maxValue).numbers, x.isInt)
    ∧ (cancelling Int64.maxValue).total = .int Int64.maxValue
    ∧ (∀ k, (cancelling Int64.maxValue).PartialSum k → FitsInt64 k)
    ∧ exactSum (cancelling Int64.maxValue).numbers = 2 ^ 63 - 1
    ∧ (∀ x ∈ (climbing Int64.maxValue).numbers, x.isInt)
    ∧ (climbing Int64.maxValue).PartialSum (2 ^ 63) ∧ ¬ FitsInt64 (2 ^ 63)
    ∧ (∃ x, (climbing Int64.maxValue).total = .float x)
    ∧ magnitudes (cancelling 5).numbers ≤ Int64.maxValue.toInt
    ∧ ∃ n : Int64, (climbing 5).total = .int n ∧ n.toInt = 5
  := by
  have hints : ∀ n, ∀ x ∈ (cancelling n).numbers, x.isInt := by
    simp [cancelling, numbers, allNumbers, Number.isInt]
  have htotal : (cancelling Int64.maxValue).total = .int Int64.maxValue := by rfl
  obtain ⟨hiff, hexact, -, -⟩ := total_exact (hints Int64.maxValue)
  have hclimbing : ∀ x ∈ (climbing Int64.maxValue).numbers, x.isInt := by decide
  have hpartial : (climbing Int64.maxValue).PartialSum (2 ^ 63) :=
    .within List.mem_cons_self (.here (List.prefix_refl _))
  have hlarge : ¬ FitsInt64 (2 ^ 63) := by
    rintro ⟨-, hmax⟩
    revert hmax
    decide
  have hsmall : magnitudes (cancelling 5).numbers ≤ Int64.maxValue.toInt := by decide
  exact ⟨hints _, htotal, hiff.1 ⟨_, htotal⟩, (hexact _ htotal).symm, hclimbing, hpartial, hlarge,
    (total_exact hclimbing).2.2.1 _ hpartial hlarge, hsmall,
    (total_exact (hints 5)).2.2.2 hsmall (climbing 5) (.refl _)⟩

end Dice
