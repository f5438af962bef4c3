import Dice.Proofs.Number.Order

/-!
# Ties between integers and doubles

A choice never admits an element and rejects one that is strictly more extreme. It has as many
elements as it counts, and does not split ties, for all counts and in whatever order the elements
come, exactly where no double is equal to several of the integers. Such a double links integers
that are not equal to one another, and the tiers of a choice then overlap.
-/

namespace Dice.Choice

/-- The elements that a choice admits: it keeps them, or drops them. A choice that breaks off admits
none. -/
def admitted (rank : Rank) (count : Int64) (vs : List Value) : List Value :=
  (byCount? .keep rank count vs).elim [] Parted.value

/-- The elements that a choice rejects. -/
def rejected (rank : Rank) (count : Int64) (vs : List Value) : List Value :=
  (byCount? .drop rank count vs).elim [] Parted.value

/-- A choice admits as many elements as it counts, rejects none that is strictly more extreme than
one it admits, and none that is equal to one. -/
structure Honours (rank : Rank) (count : Int64) (vs : List Value) : Prop where
  enough : count.toInt ≤ (admitted rank count vs).length
  extreme : ∀ r ∈ rejected rank count vs, ∀ a ∈ admitted rank count vs,
    ¬ rank.exceeds r.total a.total
  ties : ∀ r ∈ rejected rank count vs, ∀ a ∈ admitted rank count vs, (r.total == a.total) = false

theorem admitted_eq (rank : Rank) (count : Int64) (vs : List Value) :
  admitted rank count vs = (divide? rank count vs).elim [] Prod.fst
  := by
  rw [admitted, byCount?]
  cases divide? rank count vs <;> rfl

theorem rejected_eq (rank : Rank) (count : Int64) (vs : List Value) :
  rejected rank count vs = (divide? rank count vs).elim [] Prod.snd
  := by
  rw [rejected, byCount?]
  cases divide? rank count vs <;> rfl

/-- The totals of some elements are numbers. -/
def Numeric (vs : List Value) : Prop :=
  ∀ v ∈ vs, v.total.isNaN = false

/-! ### Extremes -/

theorem order_lowest_ne_gt (x y : Number) :
  Rank.lowest.order x y ≠ .gt ↔ x.compare? y ≠ some .gt
  := by
  rw [Rank.order]
  rcases x.compare? y with _ | _ | _ | _ <;> decide

theorem order_highest_ne_gt (x y : Number) :
  Rank.highest.order x y ≠ .gt ↔ x.compare? y ≠ some .lt
  := by
  rw [Rank.order]
  rcases x.compare? y with _ | _ | _ | _ <;> decide

/-- What is strictly more extreme than a total down to a boundary is itself down to it. -/
theorem order_ne_gt {rank : Rank} {r a b : Number} (hr : r.isNaN = false) (ha : a.isNaN = false)
    (hb : b.isNaN = false) (hexceeds : rank.exceeds r a) (hab : rank.order a b ≠ .gt) :
  rank.order r b ≠ .gt
  := by
  cases rank with
  | lowest =>
    have hra : r.compare? a = some .lt := beq_iff_eq.1 hexceeds
    rw [order_lowest_ne_gt] at hab ⊢
    exact Number.compare?_ne_gt hr ha hb hra hab
  | highest =>
    have hra : r.compare? a = some .gt := beq_iff_eq.1 hexceeds
    rw [order_highest_ne_gt] at hab ⊢
    intro hrb
    have hba : b.compare? a ≠ some .gt := by
      rw [Number.compare?_swap ha hb]
      rcases h : a.compare? b with _ | _ | _ | _ <;> simp_all
    exact Number.compare?_ne_gt hr hb ha hrb hba hra

/-- What is above a boundary is not strictly more extreme than what is down to it. -/
theorem downTo_not_exceeds {vs : List Value} (hnum : Numeric vs) (rank : Rank)
    {boundary : Option Number} (hboundary : ∀ b ∈ boundary, b ∈ vs.map Value.total) :
  ∀ r ∈ (downTo rank vs boundary).2, ∀ a ∈ (downTo rank vs boundary).1,
    ¬ rank.exceeds r.total a.total
  := by
  cases boundary with
  | none =>
    intro r _ a ha
    cases ha
  | some b =>
    intro r hr a ha hexceeds
    simp only [downTo, split, List.partition_eq_filter_filter, List.mem_filter] at hr ha
    obtain ⟨hr, hrb⟩ := hr
    obtain ⟨ha, hab⟩ := ha
    obtain ⟨v, hv, rfl⟩ := List.mem_map.1 (hboundary b rfl)
    have hne := order_ne_gt (hnum r hr) (hnum a ha) (hnum v hv) hexceeds (bne_iff_ne.1 hab)
    rw [Function.comp_apply, bne_iff_ne.2 hne] at hrb
    cases hrb

/-- A choice rejects nothing that is strictly more extreme than what it admits. -/
theorem rejected_not_exceeds {vs : List Value} (hnum : Numeric vs) (rank : Rank)
    (count : Int64) :
  ∀ r ∈ rejected rank count vs, ∀ a ∈ admitted rank count vs, ¬ rank.exceeds r.total a.total
  := by
  simp only [admitted_eq, rejected_eq, divide?]
  split
  · intro r _ a ha
    cases ha
  · split
    · intro r hr
      cases hr
    · cases hsort : sort? rank (vs.map Value.total) with
      | none =>
        intro r hr
        cases hr
      | some sorted =>
        apply downTo_not_exceeds hnum rank
        intro b hb
        exact mem_of_boundary? hsort hb

/-! ### Ties -/

/-- Where no double is equal to several integers, every choice honours its count. -/
theorem honours_of_untangled {vs : List Value} (hnum : Numeric vs)
    (h : Number.Untangled (vs.map Value.total)) (rank : Rank) {count : Int64}
    (hcount : count.toInt ≤ vs.length) :
  Honours rank count vs
  := by
  have hnum' : ∀ x ∈ vs.map Value.total, x.isNaN = false := by
    intro x hx
    obtain ⟨v, hv, rfl⟩ := List.mem_map.1 hx
    exact hnum v hv
  obtain ⟨κ, _, key, hkey⟩ := (Number.keyed_of_untangled hnum' h).ranked rank
  have hadmitted : admitted rank count vs = vs.filter (admits rank count vs) := by
    rw [admitted_eq, divide?_eq hkey, List.partition_eq_filter_filter]
    rfl
  have hrejected : rejected rank count vs = vs.filter (not ∘ admits rank count vs) := by
    rw [rejected_eq, divide?_eq hkey, List.partition_eq_filter_filter]
    rfl
  constructor
  · have hmin := min_le_length_admitted hkey count
    rw [Int.min_eq_left hcount] at hmin
    rw [hadmitted]
    exact hmin
  · apply rejected_not_exceeds hnum
  · intro r hr a ha
    rw [hrejected] at hr
    rw [hadmitted] at ha
    obtain ⟨hr, hout⟩ := List.mem_filter.1 hr
    obtain ⟨ha, hin⟩ := List.mem_filter.1 ha
    rw [← Bool.not_eq_true]
    intro hequal
    have hsame := (hkey.beq _ _ (List.mem_map_of_mem hr) (List.mem_map_of_mem ha)).1 hequal
    rw [Function.comp_apply, admits_congr hkey hr ha hsame count, hin] at hout
    cases hout

/-- A choice of the lowest one of an integer, a double that is equal to it, and a greater integer
that is also equal to the double, splits the tie with the greater integer. -/
theorem divide?_tangled {u v w : Value} {n m : Int64} {x : Float} (hu : u.total = .int n)
    (hv : v.total = .float x) (hw : w.total = .int m) (hx : x.isNaN = false)
    (hn : Number.int n == .float x) (hm : Number.int m == .float x) (hlt : n.toInt < m.toInt) :
  divide? .lowest 1 [u, v, w] = some ([u, v], [w])
  := by
  have hnx : (Number.int n).compare? (.float x) = some .eq := beq_iff_eq.1 hn
  have hmx : (Number.int m).compare? (.float x) = some .eq := beq_iff_eq.1 hm
  have hxn : (Number.float x).compare? (.int n) = some .eq := by
    rw [Number.compare?_swap (x := .int n) (y := .float x) rfl hx, hnx]
    rfl
  have hnm : (Number.int n).compare? (.int m) = some .lt := congrArg some (compare_lt_iff_lt.2 hlt)
  have hmn : (Number.int m).compare? (.int n) = some .gt := congrArg some (compare_gt_iff_gt.2 hlt)
  have hnn : (Number.int n).compare? (.int n) = some .eq := congrArg some (compare_eq_iff_eq.2 rfl)
  have hbeq : ∀ y z : Number, (y == z) = (y.compare? z == some .eq) := fun _ _ => rfl
  have hsort : sort? .lowest [.int n, .float x, .int m] = some [.int n, .float x, .int m] := by
    simp [sort?, Sort.sort?, Sort.insertAll, Sort.insert, Rank.order, hxn, hmx]
  have hdistinct : distinct [.int n, .float x, .int m] = [.int n, .int m] := by
    simp [distinct, distinctFrom, hbeq, hxn, hmn]
  have hboundary : boundary? 1 [.int n, .float x, .int m] [.int n, .float x, .int m]
      = some (.int n) := by
    simp [boundary?, hdistinct, boundaryFrom, hbeq, hnn]
  simp [divide?, hu, hv, hw, hsort, hboundary, downTo, split, Rank.order, hnn, hxn, hmn]

/-- Where a double is equal to two integers, one of them lesser than the other, a choice among three
elements does not honour its count. -/
theorem not_lt_of_honours {vs : List Value} (hnum : Numeric vs)
    (h : ∀ ws, ws.Subperm vs → ∀ rank (count : Int64), 0 < count → count.toInt ≤ ws.length →
      Honours rank count ws)
    {x : Float} {n m : Int64} (hx : .float x ∈ vs.map Value.total)
    (hn : .int n ∈ vs.map Value.total) (hm : .int m ∈ vs.map Value.total)
    (hnx : Number.int n == .float x) (hmx : Number.int m == .float x) :
  ¬ n.toInt < m.toInt
  := by
  intro hlt
  obtain ⟨u, hu, hun⟩ := List.mem_map.1 hn
  obtain ⟨v, hv, hvx⟩ := List.mem_map.1 hx
  obtain ⟨w, hw, hwm⟩ := List.mem_map.1 hm
  have hnan : x.isNaN = false := by
    have hvnum := hnum v hv
    rwa [hvx] at hvnum
  have hne : ∀ {a b : Value}, a.total ≠ b.total → a ≠ b := fun h hab => h (congrArg _ hab)
  have huv : u ≠ v := hne (by simp [hun, hvx])
  have hvw : v ≠ w := hne (by simp [hvx, hwm])
  have huw : u ≠ w := by
    apply hne
    rw [hun, hwm]
    intro heq
    cases heq
    exact lt_irrefl _ hlt
  have hsubperm : [u, v, w].Subperm vs := by
    apply List.subperm_of_subset
    · simp [huv, hvw, huw]
    · simp [hu, hv, hw]
  have hcount : (1 : Int64).toInt ≤ [u, v, w].length := by
    change (1 : Int64).toInt ≤ 3
    decide
  have hties := (h _ hsubperm .lowest 1 (by decide) hcount).ties
  rw [admitted_eq, rejected_eq, divide?_tangled hun hvx hwm hnan hnx hmx hlt] at hties
  have hsplit := hties w List.mem_cons_self v (List.mem_cons_of_mem u List.mem_cons_self)
  rw [hwm, hvx, hmx] at hsplit
  cases hsplit

/-- Let the totals of some elements be numbers. No choice among them rejects an element that is
strictly more extreme than one it admits. All choices among them or some of them, in whatever order
they come, honour their counts exactly where no double is equal to several integers. -/
theorem honours_iff_untangled {vs : List Value} (hnum : Numeric vs) :
  (∀ rank count, ∀ r ∈ rejected rank count vs, ∀ a ∈ admitted rank count vs,
      ¬ rank.exceeds r.total a.total)
    ∧ ((∀ ws, ws.Subperm vs → ∀ rank (count : Int64), 0 < count → count.toInt ≤ ws.length →
        Honours rank count ws)
      ↔ Number.Untangled (vs.map Value.total))
  := by
  refine ⟨rejected_not_exceeds hnum, ?_, ?_⟩
  · intro h x n m hx hn hm hnx hmx
    have hle := not_lt_of_honours hnum h hx hm hn hmx hnx
    have hge := not_lt_of_honours hnum h hx hn hm hnx hmx
    exact Int64.toInt_inj.1 (le_antisymm (not_lt.1 hle) (not_lt.1 hge))
  · intro h ws hws rank count _ hcount
    have hsubset := hws.subset
    apply honours_of_untangled _ _ rank hcount
    · intro v hv
      exact hnum v (hsubset hv)
    · intro x n m hx hn hm
      have hmap := List.map_subset Value.total hsubset
      exact h x n m (hmap hx) (hmap hn) (hmap hm)

/-- Two integers, and doubles of which one is equal to one of them. -/
def mixed : List Value :=
  [.int 3, .float 2.5, .int 7, .float 3].map .number

/-- The best two of these are three, as the integer and the double that are equal stay together. -/
theorem honours_mixed :
  Numeric mixed ∧ Honours .highest 2 mixed ∧ (admitted .highest 2 mixed).length = 3
  := by
  have hnum : Numeric mixed := by
    unfold Numeric
    decide +kernel
  have huntangled : Number.Untangled (mixed.map Value.total) := by
    intro x n m hx hn hm hnx hmx
    simp only [mixed, List.map_cons, List.map_nil, Value.total, List.mem_cons, Number.int.injEq,
      Number.float.injEq, reduceCtorEq, List.not_mem_nil, false_or, or_false] at hx hn hm
    rcases hx with rfl | rfl <;> rcases hn with rfl | rfl <;> rcases hm with rfl | rfl
      <;> revert hnx hmx <;> decide +kernel
  refine ⟨hnum, ?_, by decide +kernel⟩
  exact (honours_iff_untangled hnum).2.2 huntangled mixed (List.Subperm.refl _) .highest 2
    (by decide) (by decide)

/-- Three integers, and the sixtieth power of two as a double, to which they are all equal. -/
def linked : List Value :=
  [.int 1152921504606846978, .float 1152921504606846976, .int 1152921504606846977,
    .int 1152921504606846976].map .number

/-- The lowest three of these are two, and the integers that are left out are equal to the
double. -/
theorem not_honours_linked :
  Numeric linked ∧ (0 : Int64) < 3 ∧ (3 : Int64).toInt ≤ linked.length
    ∧ ¬ Honours .lowest 3 linked
  := by
  have hnum : Numeric linked := by
    unfold Numeric
    decide +kernel
  refine ⟨hnum, by decide, by decide, ?_⟩
  intro h
  have henough := h.enough
  have htwo : (admitted .lowest 3 linked).length = 2 := by decide +kernel
  rw [htwo] at henough
  revert henough
  decide

end Dice.Choice
