import Dice.Proofs.Number.Order
import Dice.Proofs.Operator.Confinement
import Dice.Roller.Replay

/-!
# Opposite comparisons

Dropping by a comparison is keeping by the opposite one. The opposite of a comparator is its
negation, but for the orders of a NaN: nothing is above, below or level with it, so that it satisfies
neither an order nor the opposite. Dropping mirrors keeping exactly where no NaN is compared by an
order. Sums of numbers that are read from a text may be NaNs.
-/

namespace Dice

namespace Comparator

/-- The comparators that tell which of two numbers is greater. -/
def isOrder : Comparator → Bool
  | lt | le | gt | ge => true
  | _ => false

/-- The opposite of an order is its negation where two numbers compare. -/
theorem holds_opposite_of_isOrder {cmp : Comparator} (h : cmp.isOrder) (x y : Number) :
  cmp.opposite.holds x y = !cmp.holds x y ↔ x.compare? y ≠ none
  := by
  cases cmp with
  | eq | ne | multiple | notMultiple => cases h
  | lt | le | gt | ge =>
    simp only [opposite, holds]
    rcases x.compare? y with _ | _ | _ | _ <;> decide

/-- The opposite of any other comparator is its negation. -/
theorem holds_opposite_of_not_isOrder {cmp : Comparator} (h : ¬ cmp.isOrder) (x y : Number) :
  cmp.opposite.holds x y = !cmp.holds x y
  := by
  cases cmp with
  | lt | le | gt | ge => exact absurd rfl h
  | eq | multiple => rfl
  | ne | notMultiple => exact (Bool.not_not _).symm

/-- The opposite of a comparator is its negation unless a NaN is compared by an order. -/
theorem holds_opposite_iff (cmp : Comparator) (x y : Number) :
  cmp.opposite.holds x y = !cmp.holds x y
    ↔ (cmp.isOrder → x.isNaN = false ∧ y.isNaN = false)
  := by
  by_cases h : cmp.isOrder
  · rw [holds_opposite_of_isOrder h, ne_eq, Number.compare?_eq_none_iff, not_or,
      Bool.not_eq_true, Bool.not_eq_true]
    exact (imp_iff_right h).symm
  · exact iff_of_true (holds_opposite_of_not_isOrder h x y) (fun hn => absurd hn h)

end Comparator

/-! ### Keeping and dropping -/

/-- Two tests leave the same elements in a list exactly where they agree on them. -/
theorem filter_eq_filter_iff {α : Type} {p q : α → Bool} {xs : List α} :
  xs.filter p = xs.filter q ↔ ∀ x ∈ xs, p x = q x
  := by
  constructor
  · intro h x hx
    have hmem : x ∈ xs.filter p ↔ x ∈ xs.filter q := by rw [h]
    rw [List.mem_filter, List.mem_filter, and_iff_right hx, and_iff_right hx] at hmem
    exact Bool.eq_iff_iff.2 hmem
  · exact List.filter_congr

namespace Operator

variable {ρ : Type}

/-- A choice by comparison returns the elements that satisfy it and sets aside the others. -/
theorem publish_byComparison (cmp : Comparator) (threshold : Number) (vs : List Value)
    (ctx : Context ρ) :
  ∃ ctx', publish Scope.lastDropped (Choice.byComparison cmp threshold vs) ctx
      = .ok (.list (vs.filter fun v => cmp.holds v.total threshold)) ctx'
    ∧ ctx'.scope.get? Scope.lastDropped
      = some (.list (vs.filter fun v => !cmp.holds v.total threshold))
  := by
  rw [publish_apply]
  simp only [Choice.byComparison, Choice.split, List.partition_eq_filter_filter]
  refine ⟨_, rfl, ?_⟩
  exact (Scope.assigned_set ctx.scope Scope.lastDropped _).get

variable [Roller ρ]

/-- From one context, dropping by a comparison returns the elements that keeping by it sets aside,
and sets aside those that keeping returns. -/
def Mirrored (cmp : Comparator) (left right : Value) (ctx : Context ρ) : Prop :=
  ∃ kept dropped keeping dropping,
    (filtered .keep cmp).apply left right ctx = .ok (.list kept) keeping
      ∧ keeping.scope.get? Scope.lastDropped = some (.list dropped)
      ∧ (filtered .drop cmp).apply left right ctx = .ok (.list dropped) dropping
      ∧ dropping.scope.get? Scope.lastDropped = some (.list kept)

/-- Dropping mirrors keeping where the opposite of the comparator is its negation on all
elements. -/
theorem mirrored_iff_negation (cmp : Comparator) (left right : Value) (ctx : Context ρ) :
  Mirrored cmp left right ctx
    ↔ ∀ v ∈ left.elements, cmp.opposite.holds v.total right.total = !cmp.holds v.total right.total
  := by
  obtain ⟨keeping, hkeep, hkeeping⟩ :=
    publish_byComparison cmp right.total left.elements ctx
  obtain ⟨dropping, hdrop, hdropping⟩ :=
    publish_byComparison cmp.opposite right.total left.elements ctx
  constructor
  · rintro ⟨kept, dropped, keeping', dropping', hkeep', hkeeping', hdrop', hdropping'⟩
    cases hkeep.symm.trans hkeep'
    cases hdrop.symm.trans hdrop'
    rw [hkeeping, Option.some.injEq, Value.list.injEq, filter_eq_filter_iff] at hkeeping'
    intro v hv
    exact (hkeeping' v hv).symm
  · intro h
    refine ⟨_, _, keeping, dropping, hkeep, ?_, hdrop, ?_⟩
    · rw [hkeeping, filter_eq_filter_iff.2 h]
    · rw [hdropping]
      congr 2
      apply filter_eq_filter_iff.2
      intro v hv
      rw [h v hv, Bool.not_not]

/-- The opposite of a comparator is its negation unless the comparator is an order and a NaN is
compared. From every context, dropping by a comparison returns what keeping by it sets aside, and
sets aside what keeping returns, unless the comparator is an order and there is an element that is
compared with a NaN or has one as its total. -/
theorem drop_mirrors_keep_iff (cmp : Comparator) :
  (∀ x y, cmp.opposite.holds x y = !cmp.holds x y
      ↔ (cmp.isOrder → x.isNaN = false ∧ y.isNaN = false))
    ∧ ∀ (left right : Value) (ctx : Context ρ), Mirrored cmp left right ctx
        ↔ (cmp.isOrder → ∀ v ∈ left.elements, v.total.isNaN = false ∧ right.total.isNaN = false)
  := by
  refine ⟨cmp.holds_opposite_iff, ?_⟩
  intro left right ctx
  rw [mirrored_iff_negation]
  constructor
  · intro h horder v hv
    exact (cmp.holds_opposite_iff v.total right.total).1 (h v hv) horder
  · intro h v hv
    apply (cmp.holds_opposite_iff v.total right.total).2
    intro horder
    exact h horder v hv

/-! ### Sums that cancel out -/

/-- The text of a list of a number twice. -/
def twiceChars (cs : List Char) : List Char :=
  '[' :: cs ++ ',' :: cs ++ [']']

/-- The numeral of the greatest power of ten that is finite as a double. -/
def powerChars : List Char :=
  '1' :: List.replicate 308 '0'

/-- The text of a list whose one element is the sum of an infinity and its opposite. -/
def cancelling : String :=
  .ofList ('[' :: '[' :: twiceChars powerChars ++ ',' :: twiceChars ('-' :: powerChars)
    ++ [']', ']'])

/-- Dropping what is below zero from a list read from a text does not mirror keeping it. -/
theorem not_mirrored_cancelling :
  ∃ left right, Value.ofText cancelling = .ok left ∧ Value.ofText "0" = .ok right
    ∧ ¬ Mirrored .lt left right (Context.start (⟨[0], by decide, 0⟩ : Replay))
  := by
  have hleft : ((Value.ofText cancelling).toOption.map fun v => v.elements.map (·.total.isNaN))
      = some [true] := by
    rw [Value.ofText, cancelling, String.toList_ofList]
    decide +kernel
  have hright : (Value.ofText "0").toOption.isSome := by decide +kernel
  obtain ⟨left, hl, hnan⟩ := Option.map_eq_some_iff.1 hleft
  obtain ⟨right, hr⟩ := Option.isSome_iff_exists.1 hright
  refine ⟨left, right, eq_ok_of_toOption hl, eq_ok_of_toOption hr, ?_⟩
  obtain ⟨v, hv, -⟩ := List.map_eq_singleton_iff.1 hnan
  rw [mirrored_iff_negation]
  intro h
  have hnegation := (Comparator.holds_opposite_iff .lt v.total right.total).1
    (h v (hv ▸ List.mem_singleton_self v)) rfl
  rw [hv] at hnan
  cases hnan.symm.trans (congrArg (fun b => [b]) hnegation.1)

end Operator

end Dice
