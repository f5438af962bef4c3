import Dice.Proofs.Choice.Ties

/-!
# The order of a ranking

Elements are sorted by the order of their totals. On numbers it is total, it turns around when its
operands are swapped, and it finds two numbers equal exactly where they are. It is transitive, and
so is equality, but for three numbers: a double and two integers that are equal to it and not to
each other.
-/

namespace Dice

/-- Two different integers, and between them a double that is equal to both. -/
inductive Number.Linked : Number → Number → Number → Prop
  | intro {n m : Int64} {x : Float} : n ≠ m → int n == float x → int m == float x →
      Linked (int n) (float x) (int m)

namespace Number

variable {x y z : Number}

theorem Linked.symm (h : Linked x y z) :
  Linked z y x
  := by
  obtain ⟨hne, hn, hm⟩ := h
  exact .intro hne.symm hm hn

/-- Numbers compare. -/
theorem exists_compare? (hx : x.isNaN = false) (hy : y.isNaN = false) :
  ∃ o, x.compare? y = some o
  := by
  apply Option.ne_none_iff_exists'.1
  rw [ne_eq, compare?_eq_none_iff, hx, hy]
  decide

theorem beq_iff_compare? :
  x == y ↔ x.compare? y = some .eq
  := by
  change (x.compare? y == some .eq) = true ↔ _
  rw [beq_iff_eq]

theorem beq_comm (hx : x.isNaN = false) (hy : y.isNaN = false) :
  x == y ↔ y == x
  := by
  rw [beq_iff_compare?, beq_iff_compare?, compare?_swap hx hy]
  obtain ⟨o, h⟩ := exists_compare? hx hy
  rw [h]
  cases o <;> decide

/-- Where a number is above one that it should not be above, by way of a third, the two are integers
and the third is a double. -/
theorem linked_of_compare? (hx : x.isNaN = false) (hy : y.isNaN = false) (hz : z.isNaN = false)
    (hxy : x.compare? y ≠ some .gt) (hyz : y.compare? z ≠ some .gt) (hxz : x.compare? z = some .gt) :
  Linked x y z
  := by
  have hzx : z.compare? x = some .lt := by
    rw [compare?_swap hx hz, hxz]
    rfl
  have hxy' := level_le hx hy hxy
  have hyz' := level_le hy hz hyz
  have hzx' := level_le hz hx (by rw [hzx]; decide)
  obtain ⟨m, n, rfl, rfl, hlt⟩ := integers_of_level_le hz hx hzx (hxy'.trans hyz')
  cases y with
  | int k =>
    -- Integers compare exactly, and these would form a cycle.
    have hnk : n.toInt ≤ k.toInt := by
      change some (compare n.toInt k.toInt) ≠ some .gt at hxy
      rwa [ne_eq, Option.some.injEq, compare_gt_iff_gt, not_lt] at hxy
    have hkm : k.toInt ≤ m.toInt := by
      change some (compare k.toInt m.toInt) ≠ some .gt at hyz
      rwa [ne_eq, Option.some.injEq, compare_gt_iff_gt, not_lt] at hyz
    exact absurd (hnk.trans hkm) hlt.not_ge
  | float y =>
    apply Linked.intro
    · rintro rfl
      exact lt_irrefl _ hlt
    · exact (int_beq_float_iff hy).2 (le_antisymm hxy' (hyz'.trans hzx'))
    · exact (int_beq_float_iff hy).2 (le_antisymm (hzx'.trans hxy') hyz')

/-- Equality is transitive exactly where the three numbers are not linked. -/
theorem beq_trans_iff (hx : x.isNaN = false) (hy : y.isNaN = false) (hz : z.isNaN = false) :
  (x == y → y == z → x == z) ↔ ¬ Linked x y z
  := by
  constructor
  · rintro htrans hlinked
    obtain ⟨hne, hn, hm⟩ := hlinked
    have hnm := htrans hn ((beq_comm hz hy).1 hm)
    rw [beq_iff_compare?, compare?, Option.some.injEq, compare_eq_iff_eq] at hnm
    exact hne (Int64.toInt_inj.1 hnm)
  · intro hlinked hxy hyz
    rw [beq_iff_compare?] at hxy hyz ⊢
    obtain ⟨o, hxz⟩ := exists_compare? hx hz
    cases o with
    | eq => exact hxz
    | gt =>
      have h := linked_of_compare? hx hy hz (by rw [hxy]; decide) (by rw [hyz]; decide) hxz
      exact absurd h hlinked
    | lt =>
      have hzx : z.compare? x = some .gt := by
        rw [compare?_swap hx hz, hxz]
        rfl
      have hyx : y.compare? x ≠ some .gt := by
        rw [compare?_swap hx hy, hxy]
        decide
      have hzy : z.compare? y ≠ some .gt := by
        rw [compare?_swap hy hz, hyz]
        decide
      exact absurd (linked_of_compare? hz hy hx hzy hyx hzx).symm hlinked

end Number

namespace Rank

variable {a b c : Number}

/-- The order turns around when the numbers are swapped. -/
theorem order_swap (rank : Rank) (ha : a.isNaN = false) (hb : b.isNaN = false) :
  rank.order b a = (rank.order a b).swap
  := by
  obtain ⟨o, h⟩ := Number.exists_compare? ha hb
  have h' : b.compare? a = some o.swap := by
    rw [Number.compare?_swap ha hb, h]
    rfl
  cases rank <;> rw [order, order, h, h'] <;> rfl

theorem order_highest (ha : a.isNaN = false) (hb : b.isNaN = false) :
  highest.order a b = lowest.order b a
  := (order_swap lowest ha hb).symm

/-- The order finds two numbers equal exactly where they are. -/
theorem order_eq_iff (rank : Rank) (ha : a.isNaN = false) (hb : b.isNaN = false) :
  rank.order a b = .eq ↔ a == b
  := by
  obtain ⟨o, h⟩ := Number.exists_compare? ha hb
  rw [Number.beq_iff_compare?]
  cases rank <;> rw [order, h] <;> cases o <;> decide

/-- Numbers that are linked are found equal one by one. -/
theorem order_of_linked (rank : Rank) (ha : a.isNaN = false) (hb : b.isNaN = false)
    (hc : c.isNaN = false) (h : Number.Linked a b c) :
  rank.order a b = .eq ∧ rank.order b c = .eq
  := by
  obtain ⟨-, hn, hm⟩ := h
  constructor
  · exact (order_eq_iff rank ha hb).2 hn
  · rw [order_swap rank hc hb, (order_eq_iff rank hc hb).2 hm]
    rfl

/-- Where the order is not transitive, the numbers are linked. -/
theorem linked_of_order (rank : Rank) (ha : a.isNaN = false) (hb : b.isNaN = false)
    (hc : c.isNaN = false) (hab : rank.order a b ≠ .gt) (hbc : rank.order b c ≠ .gt)
    (hac : rank.order a c = .gt) :
  Number.Linked a b c
  := by
  have hgt : ∀ {x y : Number}, lowest.order x y = .gt ↔ x.compare? y = some .gt := by
    intro x y
    exact not_iff_not.1 (Choice.order_lowest_ne_gt x y)
  cases rank with
  | lowest =>
    exact Number.linked_of_compare? ha hb hc (mt hgt.2 hab) (mt hgt.2 hbc) (hgt.1 hac)
  | highest =>
    rw [order_highest ha hb] at hab
    rw [order_highest hb hc] at hbc
    rw [order_highest ha hc] at hac
    exact (Number.linked_of_compare? hc hb ha (mt hgt.2 hbc) (mt hgt.2 hab) (hgt.1 hac)).symm

/-- Let three numbers be given, and a rank. The order turns around when two of them are swapped, and
finds them equal exactly where they are. It is transitive from the first number by the second to the
third, unless the second is a double that links the others and these stand the other way around.
Equality is transitive unless the numbers are linked. -/
theorem order_preorder_iff (rank : Rank) (ha : a.isNaN = false) (hb : b.isNaN = false)
    (hc : c.isNaN = false) :
  rank.order b a = (rank.order a b).swap
    ∧ (rank.order a b = .eq ↔ a == b)
    ∧ ((rank.order a b ≠ .gt → rank.order b c ≠ .gt → rank.order a c ≠ .gt)
      ↔ ¬ (Number.Linked a b c ∧ rank.order a c = .gt))
    ∧ ((a == b → b == c → a == c) ↔ ¬ Number.Linked a b c)
  := by
  refine ⟨order_swap rank ha hb, order_eq_iff rank ha hb, ?_, Number.beq_trans_iff ha hb hc⟩
  constructor
  · rintro htrans ⟨hlinked, hac⟩
    obtain ⟨hab, hbc⟩ := order_of_linked rank ha hb hc hlinked
    exact htrans (by rw [hab]; decide) (by rw [hbc]; decide) hac
  · intro hcycle hab hbc hac
    exact hcycle ⟨linked_of_order rank ha hb hc hab hbc hac, hac⟩

/-- Two and a half is not above the integer three, and this not above the double, so two and a half is
not above the double. -/
theorem order_preorder_mixed :
  ((Number.float 2.5).isNaN = false ∧ (Number.int 3).isNaN = false
      ∧ (Number.float 3).isNaN = false)
    ∧ Rank.lowest.order (.float 2.5) (.int 3) ≠ .gt ∧ Rank.lowest.order (.int 3) (.float 3) ≠ .gt
    ∧ Rank.lowest.order (.float 2.5) (.float 3) ≠ .gt
  := by
  have hnum : (Number.float 2.5).isNaN = false ∧ (Number.int 3).isNaN = false
      ∧ (Number.float 3).isNaN = false := by decide +kernel
  have hfirst : Rank.lowest.order (.float 2.5) (.int 3) ≠ .gt := by decide +kernel
  have hsecond : Rank.lowest.order (.int 3) (.float 3) ≠ .gt := by decide +kernel
  refine ⟨hnum, hfirst, hsecond, ?_⟩
  have htrans := (order_preorder_iff .lowest hnum.1 hnum.2.1 hnum.2.2).2.2.1
  apply htrans.2 _ hfirst hsecond
  rintro ⟨hlinked, -⟩
  cases hlinked

/-- The integer after the fifty-third power of two is equal to the power as a double, and this to the
power as an integer. But the first integer is neither below the second nor equal to it. -/
theorem order_not_transitive :
  ((Number.int 9007199254740993).isNaN = false ∧ (Number.float 9007199254740992).isNaN = false
      ∧ (Number.int 9007199254740992).isNaN = false)
    ∧ ¬ (Rank.lowest.order (.int 9007199254740993) (.float 9007199254740992) ≠ .gt →
        Rank.lowest.order (.float 9007199254740992) (.int 9007199254740992) ≠ .gt →
        Rank.lowest.order (.int 9007199254740993) (.int 9007199254740992) ≠ .gt)
    ∧ ¬ (Number.int 9007199254740993 == .float 9007199254740992 →
        Number.float 9007199254740992 == .int 9007199254740992 →
        Number.int 9007199254740993 == .int 9007199254740992)
  := by
  decide +kernel

end Rank

end Dice
