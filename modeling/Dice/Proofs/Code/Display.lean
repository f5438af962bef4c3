import Dice.Choice
import Dice.Proofs.Code.RoundTrip
import Dice.Proofs.Value.Totals

/-!
# Reading a display

The display of a value shows its dice as bare outcomes. It is the code of the value with a number in
the place of each of these dice. A value of integers is read back as this bare value, which has the
same total. So do its elements, and a choice is made by totals: it takes the elements at the same
positions of both.
-/

namespace Dice

/-! ### Bare values -/

mutual

/-- The value with the outcomes of its dice in their places. -/
def Value.bare : Value → Value
  | .number x => .number x
  | .list vs => .list (allBare vs)
  | .die x _ => .number x

/-- Some values with the outcomes of their dice in their places. -/
def allBare : List Value → List Value
  | [] => []
  | v :: vs => v.bare :: allBare vs

end

theorem allBare_eq_map (vs : List Value) :
  allBare vs = vs.map Value.bare
  := by
  induction vs with
  | nil => rfl
  | cons v vs ih => rw [allBare, List.map_cons, ih]

mutual

/-- The display of a value is the code of the bare value. -/
theorem Value.codeChars_bare : ∀ v : Value, v.bare.codeChars = v.displayChars
  | .number _ => rfl
  | .list [] => rfl
  | .list (v :: vs) => by
    rw [Value.bare, allBare, Value.codeChars, Value.displayChars, v.codeChars_bare,
      codeRest_allBare]
  | .die _ _ => rfl

theorem codeRest_allBare : ∀ vs : List Value, codeRest (allBare vs) = displayRest vs
  | [] => rfl
  | v :: vs => by
    rw [allBare, codeRest, displayRest, v.codeChars_bare, codeRest_allBare]

end

mutual

theorem Value.total_bare : ∀ v : Value, v.bare.total = v.total
  | .number _ => rfl
  | .list vs => totalFrom_allBare .zero vs
  | .die _ _ => rfl

theorem totalFrom_allBare : ∀ (acc : Number) (vs : List Value),
    Value.totalFrom acc (allBare vs) = Value.totalFrom acc vs
  | _, [] => rfl
  | acc, v :: vs => by
    rw [allBare, Value.totalFrom, Value.totalFrom, v.total_bare, totalFrom_allBare]

end

mutual

/-- A bare value of integers is exact: it has no dice. -/
theorem Value.isExact_bare : ∀ v : Value, (∀ x ∈ v.numbers, x.isInt) → v.bare.isExact
  | .number x, h => h x List.mem_cons_self
  | .list vs, h => allExact_allBare vs h
  | .die x _, h => h x List.mem_cons_self

theorem allExact_allBare : ∀ vs : List Value, (∀ x ∈ allNumbers vs, x.isInt) →
    allExact (allBare vs)
  | [], _ => rfl
  | v :: vs, h => by
    obtain ⟨hv, hvs⟩ := List.forall_mem_append.1 h
    rw [allBare, allExact, v.isExact_bare hv, allExact_allBare vs hvs]
    rfl

end

theorem Value.elements_bare (v : Value) :
  v.bare.elements = v.elements.map bare
  := by
  cases v with
  | number x => rfl
  | list vs => exact allBare_eq_map vs
  | die x f => rfl

/-- The elements of a bare value have the totals of those of the value. -/
theorem Value.totals_elements_bare (v : Value) :
  v.bare.elements.map total = v.elements.map total
  := by
  rw [elements_bare, List.map_map]
  apply List.map_congr_left
  intro w _
  apply w.total_bare

/-! ### Choices by position -/

/-- The elements at the marked positions. -/
def marked {α : Type} : List Bool → List α → List α
  | mark :: marks, x :: xs => if mark then x :: marked marks xs else marked marks xs
  | _, _ => []

/-- A choice among some elements returns those at the marked positions and sets aside the others. -/
structure Parted.Takes (parted : Parted) (marks : List Bool) (vs : List Value) : Prop where
  length : marks.length = vs.length
  value : parted.value = marked marks vs
  side : parted.side = .list (marked (marks.map not) vs)

/-- The elements that satisfy a test are those at the positions where it holds. -/
theorem marked_map {α : Type} (p : α → Bool) (xs : List α) :
  marked (xs.map p) xs = xs.filter p
  := by
  induction xs with
  | nil => rfl
  | cons x xs ih => rw [List.map_cons, marked, ih, List.filter_cons]

namespace Choice

/-- A test that divides some elements marks their positions. -/
theorem takes_partition (p : Value → Bool) (vs : List Value) :
  (Parted.mk (vs.partition p).1 (.list (vs.partition p).2)).Takes (vs.map p) vs
  := by
  rw [List.partition_eq_filter_filter]
  refine ⟨List.length_map p, (marked_map p vs).symm, ?_⟩
  rw [List.map_map, marked_map]

theorem takes_partition_swap (p : Value → Bool) (vs : List Value) :
  (Parted.mk (vs.partition p).2 (.list (vs.partition p).1)).Takes (vs.map (not ∘ p)) vs
  := by
  have hnot : not ∘ not ∘ p = p := by
    funext v
    apply Bool.not_not
  have htakes := takes_partition (not ∘ p) vs
  rw [List.partition_eq_filter_filter, hnot] at htakes
  rw [List.partition_eq_filter_filter]
  exact htakes

/-- Whether a choice of some number breaks off, and which elements it divides off, is a test of
totals, the same one for all elements with some totals. -/
theorem exists_divide?_eq (rank : Rank) (count : Int64) (totals : List Number) :
  ∃ test? : Option (Number → Bool), ∀ vs : List Value, vs.map Value.total = totals →
    divide? rank count vs = test?.map fun test => split test vs
  := by
  by_cases hzero : count.toInt.toNat = 0
  · use some fun _ => false
    intro vs _
    rw [Option.map_some, split, partition_of_forall (b := false) fun _ _ => rfl]
    simp only [divide?]
    apply if_pos hzero
  · by_cases hall : totals.length ≤ count.toInt.toNat
    · use some fun _ => true
      rintro vs rfl
      rw [List.length_map] at hall
      rw [Option.map_some, split, partition_of_forall (b := true) fun _ _ => rfl]
      simp only [divide?]
      rw [if_neg hzero, if_pos hall]
      rfl
    · use (sort? rank totals).map fun sorted x =>
        (boundary? count.toInt.toNat totals sorted).any fun b => rank.order x b != .gt
      rintro vs rfl
      rw [List.length_map] at hall
      simp only [divide?]
      rw [if_neg hzero, if_neg hall, Option.map_map]
      congr 1
      funext sorted
      rw [Function.comp_apply]
      cases boundary? count.toInt.toNat (vs.map Value.total) sorted with
      | none => exact (partition_of_forall (b := false) fun _ _ => rfl).symm
      | some b => rfl

/-- Both sides of a division by a test of totals are at positions that depend on the totals
alone. -/
theorem exists_sides_takes (action : Action) (test : Number → Bool) :
  ∃ mark : Number → Bool, ∀ vs : List Value,
    (sides action (split test vs).1 (split test vs).2).Takes ((vs.map Value.total).map mark) vs
  := by
  cases action with
  | keep =>
    use test
    intro vs
    rw [List.map_map]
    apply takes_partition
  | drop =>
    use not ∘ test
    intro vs
    rw [List.map_map]
    apply takes_partition_swap

/-- Whether a choice of some number breaks off, and the positions that it takes, depend on the
totals alone. -/
theorem exists_byCount?_takes
    (action : Action) (rank : Rank) (count : Int64) (totals : List Number) :
  ∃ marks, ∀ vs ws : List Value, vs.map Value.total = totals → ws.map Value.total = totals →
    Option.Rel (fun p q => p.Takes marks vs ∧ q.Takes marks ws)
      (byCount? action rank count vs) (byCount? action rank count ws)
  := by
  obtain ⟨test?, htest⟩ := exists_divide?_eq rank count totals
  simp only [byCount?]
  cases test? with
  | none =>
    use []
    intro vs ws hvs hws
    rw [htest vs hvs, htest ws hws]
    exact .none
  | some test =>
    obtain ⟨mark, hmark⟩ := exists_sides_takes action test
    use totals.map mark
    intro vs ws hvs hws
    rw [htest vs hvs, htest ws hws]
    exact .some ⟨hvs ▸ hmark vs, hws ▸ hmark ws⟩

/-- So do those that a choice by comparison takes. -/
theorem exists_byComparison_takes (cmp : Comparator) (threshold : Number) (totals : List Number) :
  ∃ marks, ∀ vs : List Value, vs.map Value.total = totals →
    (byComparison cmp threshold vs).Takes marks vs
  := by
  use totals.map (cmp.holds · threshold)
  rintro vs rfl
  rw [List.map_map]
  apply takes_partition

end Choice

/-! ### Displays -/

/-- The display of a value of integers denotes the bare value. This has the same total, and every
choice among its elements takes those at the same positions as among the elements of the value, or
breaks off as it does there. -/
theorem Value.ofText_display {v : Value} (h : ∀ x ∈ v.numbers, x.isInt) :
  ofText v.display = .ok v.bare ∧ v.bare.total = v.total
    ∧ (∀ action rank count, ∃ marks,
      Option.Rel (fun p q => p.Takes marks v.elements ∧ q.Takes marks v.bare.elements)
        (Choice.byCount? action rank count v.elements)
        (Choice.byCount? action rank count v.bare.elements))
    ∧ ∀ cmp threshold, ∃ marks,
      (Choice.byComparison cmp threshold v.elements).Takes marks v.elements
        ∧ (Choice.byComparison cmp threshold v.bare.elements).Takes marks v.bare.elements
  := by
  have htotals := v.totals_elements_bare
  refine ⟨?_, v.total_bare, ?_, ?_⟩
  · rw [display, ← v.codeChars_bare]
    apply ofText_code_of_isExact _ (v.isExact_bare h)
  · intro action rank count
    obtain ⟨marks, hmarks⟩ :=
      Choice.exists_byCount?_takes action rank count (v.elements.map total)
    exact ⟨marks, hmarks _ _ rfl htotals⟩
  · intro cmp threshold
    obtain ⟨marks, hmarks⟩ := Choice.exists_byComparison_takes cmp threshold (v.elements.map total)
    exact ⟨marks, hmarks _ rfl, hmarks _ htotals⟩

/-- A die with a face that is no integer, a nested die, and the least integer. -/
def Value.thrown : Value :=
  .list [.die (.int 5) (.listed (.number (.float 2.5)) [.number (.int 5)]),
    .list [.die (.int 3) (.upTo 20 (by decide)), .list []], .number (.int Int64.minValue)]

/-- It is displayed without its faces, and read back as its outcomes. -/
theorem Value.ofText_display_thrown :
  (∀ x ∈ thrown.numbers, x.isInt) ∧ thrown.display = "[5,[3,[]],-9223372036854775808]"
    ∧ ofText thrown.display
      = .ok (.list [.number (.int 5), .list [.number (.int 3), .list []],
        .number (.int Int64.minValue)])
    ∧ ∃ marks,
      Option.Rel (fun p q => p.Takes marks thrown.elements ∧ q.Takes marks thrown.bare.elements)
        (Choice.byCount? .drop .lowest 1 thrown.elements)
        (Choice.byCount? .drop .lowest 1 thrown.bare.elements)
  := by
  have hints : ∀ x ∈ thrown.numbers, x.isInt := by decide
  obtain ⟨htext, -, hcount, -⟩ := ofText_display hints
  exact ⟨hints, by rfl, htext, hcount .drop .lowest 1⟩

end Dice
