import Dice.Choice
import Dice.Proofs.Sort

/-!
# Tiers

Where a key orders totals as a rank does, they fall into tiers of one key each. A choice stops at
the first tier with which it has enough: fewer elements than the count lie above it, and as many at
least lie down to it. So it admits exactly the elements that fewer elements than the count are
above of, which is all that is said here of what it admits.
-/

namespace Dice

/-- Whether a total is strictly more extreme than another. -/
def Rank.exceeds (rank : Rank) (x y : Number) : Bool :=
  match rank with
  | highest => x.compare? y == some .gt
  | lowest => x.compare? y == some .lt

/-- A key that orders some numbers as they compare. -/
def Number.Keyed {κ : Type} [LinearOrder κ] (key : Number → κ) (xs : List Number) : Prop :=
  ∀ x ∈ xs, ∀ y ∈ xs, x.compare? y = some (compare (key x) (key y))

/-- A key that orders some totals as a rank does: the most extreme ones have the least keys, and
equal ones the same. -/
structure Rank.Keyed {κ : Type} [LinearOrder κ] (rank : Rank) (key : Number → κ)
    (totals : List Number) : Prop where
  order (x y : Number) : x ∈ totals → y ∈ totals → rank.order x y = compare (key x) (key y)
  beq (x y : Number) : x ∈ totals → y ∈ totals → ((x == y) = true ↔ key x = key y)

/-- Numbers that compare by a key are ranked by it, or by it turned round. -/
theorem Number.Keyed.ranked
    {κ : Type} [LinearOrder κ] {key : Number → κ} {xs : List Number} (h : Number.Keyed key xs)
    (rank : Rank) :
  ∃ (κ' : Type) (_ : LinearOrder κ') (key' : Number → κ'), rank.Keyed key' xs
  := by
  have hbeq : ∀ x ∈ xs, ∀ y ∈ xs, (x == y) = true ↔ key x = key y := by
    intro x hx y hy
    change (x.compare? y == some .eq) = true ↔ _
    rw [h x hx y hy, beq_iff_eq, Option.some.injEq, compare_eq_iff_eq]
  cases rank with
  | highest =>
    use κᵒᵈ, inferInstance, OrderDual.toDual ∘ key
    constructor
    · intro x y hx hy
      rw [Rank.order, h x hx y hy]
      exact Std.OrientedOrd.eq_swap.symm
    · intro x y hx hy
      rw [hbeq x hx y hy]
      exact OrderDual.toDual_inj.symm
  | lowest =>
    use κ, inferInstance, key
    constructor
    · intro x y hx hy
      rw [Rank.order, h x hx y hy]
      rfl
    · intro x y hx hy
      exact hbeq x hx y hy

/-- What is strictly more extreme comes first in the order. -/
theorem Rank.exceeds_iff (rank : Rank) (x y : Number) :
  rank.exceeds x y ↔ rank.order x y = .lt
  := by
  cases rank with
  | highest =>
    rw [exceeds, order, beq_iff_eq]
    rcases x.compare? y with _ | _ | _ | _ <;> decide
  | lowest =>
    rw [exceeds, order, beq_iff_eq]
    rcases x.compare? y with _ | _ | _ | _ <;> decide

namespace Choice

/-- How many of some elements are strictly more extreme than a total. -/
def above (rank : Rank) (vs : List Value) (x : Number) : Nat :=
  vs.countP fun w => rank.exceeds w.total x

/-- Whether fewer elements than the count are strictly more extreme than a value. -/
def admits (rank : Rank) (count : Int64) (vs : List Value) (v : Value) : Bool :=
  (above rank vs v.total : Int) < count.toInt

/-! ### Sorting -/

/-- Sorting keeps every total, as often as it occurs. -/
theorem perm_of_sort? {rank : Rank} {xs ys : List Number} (h : sort? rank xs = some ys) :
  ys.Perm xs
  := Sort.permutes_sort? _ h

section

variable {κ : Type} [LinearOrder κ] {rank : Rank} {key : Number → κ} {totals : List Number}
  (h : rank.Keyed key totals)

include h

/-- Where a key ranks the totals, they are sorted, in the order of their keys. -/
theorem exists_sort? :
  ∃ sorted, sort? rank totals = some sorted ∧ sorted.Pairwise fun a b => key a ≤ key b
  := by
  have hkeyed : Sort.Keyed (fun x y => rank.order x y == .lt) key totals := by
    intro x hx y hy
    rw [beq_iff_eq, h.order x y hx hy, compare_lt_iff_lt]
  exact Sort.orders_sort? hkeyed (List.Subset.refl totals)

/-! ### One total of each tier -/

omit h in
theorem distinctFrom_sublist (last : Number) (xs : List Number) :
  (distinctFrom last xs).Sublist xs
  := by
  induction xs generalizing last with
  | nil => apply List.Sublist.refl
  | cons x xs ih =>
    rw [distinctFrom]
    split
    · apply (ih last).cons
    · apply (ih x).cons_cons

/-- Of totals in order, one is left for each key. -/
theorem distinctFrom_tiers {last : Number} {xs : List Number}
    (hmem : ∀ x ∈ last :: xs, x ∈ totals)
    (hsorted : (last :: xs).Pairwise fun a b => key a ≤ key b) :
  (last :: distinctFrom last xs).Pairwise (fun a b => key a < key b)
    ∧ ∀ x ∈ last :: xs, ∃ t ∈ last :: distinctFrom last xs, key x = key t
  := by
  induction xs generalizing last with
  | nil =>
    constructor
    · apply List.pairwise_singleton
    · intro x hx
      exact ⟨x, hx, rfl⟩
  | cons x xs ih =>
    obtain ⟨hlast, hmem'⟩ := List.forall_mem_cons.1 hmem
    obtain ⟨hle, hrest⟩ := List.pairwise_cons.1 hsorted
    obtain ⟨hx, hxs⟩ := List.forall_mem_cons.1 hmem'
    obtain ⟨hlex, hlexs⟩ := List.forall_mem_cons.1 hle
    have hsame := h.beq x last hx hlast
    by_cases hkey : key x = key last
    · obtain ⟨hpairwise, hcover⟩ := ih (List.forall_mem_cons.2 ⟨hlast, hxs⟩)
        (List.Pairwise.cons hlexs (List.pairwise_cons.1 hrest).2)
      rw [distinctFrom, if_pos (hsame.2 hkey)]
      use hpairwise
      intro y hy
      rcases List.mem_cons.1 hy with rfl | hy
      · apply hcover y List.mem_cons_self
      · rcases List.mem_cons.1 hy with rfl | hy
        · exact ⟨last, List.mem_cons_self, hkey⟩
        · apply hcover y (List.mem_cons_of_mem _ hy)
    · obtain ⟨hpairwise, hcover⟩ := ih hmem' hrest
      have hlt : key last < key x := lt_of_le_of_ne hlex (Ne.symm hkey)
      rw [distinctFrom, if_neg (mt hsame.1 hkey)]
      constructor
      · apply List.Pairwise.cons _ hpairwise
        intro t ht
        rcases List.mem_cons.1 ht with rfl | ht
        · exact hlt
        · exact hlt.trans ((List.pairwise_cons.1 hpairwise).1 t ht)
      · intro y hy
        rcases List.mem_cons.1 hy with rfl | hy
        · exact ⟨y, List.mem_cons_self, rfl⟩
        · obtain ⟨t, ht, hkey⟩ := hcover y hy
          exact ⟨t, List.mem_cons_of_mem _ ht, hkey⟩

/-! ### The boundary -/

omit h in
theorem mem_of_boundaryFrom {count found : Nat} {last : Option Number} {ts : List Number}
    {b : Number} (hb : boundaryFrom totals count last found ts = some b) :
  last = some b ∨ b ∈ ts
  := by
  induction ts generalizing last found with
  | nil => exact .inl hb
  | cons t ts ih =>
    simp only [boundaryFrom] at hb
    split at hb
    · cases hb
      exact .inr List.mem_cons_self
    · rcases ih hb with hlast | hmem
      · cases hlast
        exact .inr List.mem_cons_self
      · exact .inr (List.mem_cons_of_mem t hmem)

omit h in
/-- A boundary is one of the totals. -/
theorem mem_of_boundary? {sorted : List Number} (hsort : sort? rank totals = some sorted)
    {count : Nat} {b : Number} (hb : boundary? count totals sorted = some b) :
  b ∈ totals
  := by
  rw [← (perm_of_sort? hsort).mem_iff]
  rw [boundary?] at hb
  rcases mem_of_boundaryFrom hb with hlast | hmem
  · cases hlast
  · cases sorted with
    | nil => cases hmem
    | cons t ts => exact ((distinctFrom_sublist t ts).cons_cons t).subset hmem

theorem countP_tier {t : Number} (ht : t ∈ totals) :
  totals.countP (fun x => key x < key t) + totals.countP (· == t)
    = totals.countP (fun x => key x ≤ key t)
  := by
  rw [List.countP_eq_countP_filter_add totals (fun x => key x ≤ key t) (fun x => key x < key t),
    List.countP_filter, List.countP_filter]
  congr 1
  · apply List.countP_congr
    intro x hx
    simp only [decide_eq_true_eq, Bool.and_eq_true]
    exact ⟨fun hlt => ⟨hlt.le, hlt⟩, fun hboth => hboth.2⟩
  · apply List.countP_congr
    intro x hx
    rw [h.beq x t hx ht]
    simp only [decide_eq_true_eq, Bool.and_eq_true, Bool.not_eq_true', decide_eq_false_iff_not,
      not_lt]
    exact le_antisymm_iff

/-- Going down the tiers ends at one that fewer totals than the count are above, and down to which
there are enough. -/
theorem exists_boundaryFrom {count : Nat} (hcount : count ≤ totals.length) {t : Number}
    {ts : List Number} (hmem : ∀ u ∈ t :: ts, u ∈ totals)
    (hpairwise : (t :: ts).Pairwise fun a b => key a < key b)
    (hcover : ∀ x ∈ totals, key x < key t ∨ ∃ u ∈ t :: ts, key x = key u)
    (habove : totals.countP (fun x => key x < key t) < count) (last : Option Number) :
  ∃ b ∈ totals,
    boundaryFrom totals count last (totals.countP fun x => key x < key t) (t :: ts) = some b
      ∧ totals.countP (fun x => key x < key b) < count
      ∧ count ≤ totals.countP fun x => key x ≤ key b
  := by
  induction ts generalizing t last with
  | nil =>
    have ht := hmem t List.mem_cons_self
    have hall : totals.countP (fun x => key x ≤ key t) = totals.length := by
      rw [List.countP_eq_length]
      intro x hx
      rw [decide_eq_true_eq]
      rcases hcover x hx with hlt | ⟨u, hu, hkey⟩
      · exact hlt.le
      · rw [List.mem_singleton.1 hu] at hkey
        exact hkey.le
    use t, ht
    rw [boundaryFrom, countP_tier h ht, if_pos (hcount.trans_eq hall.symm)]
    exact ⟨rfl, habove, hcount.trans_eq hall.symm⟩
  | cons u ts ih =>
    have ht := hmem t List.mem_cons_self
    rw [boundaryFrom, countP_tier h ht]
    by_cases henough : count ≤ totals.countP fun x => key x ≤ key t
    · rw [if_pos henough]
      exact ⟨t, ht, rfl, habove, henough⟩
    · obtain ⟨hlt, hrest⟩ := List.pairwise_cons.1 hpairwise
      have hnext : ∀ x ∈ totals, key x ≤ key t ∨ ∃ v ∈ u :: ts, key x = key v := by
        intro x hx
        rcases hcover x hx with hlt | ⟨v, hv, hkey⟩
        · exact .inl hlt.le
        · rcases List.mem_cons.1 hv with rfl | hv
          · exact .inl hkey.le
          · exact .inr ⟨v, hv, hkey⟩
      have htu : key t < key u := hlt u List.mem_cons_self
      have hfound : totals.countP (fun x => key x ≤ key t)
          = totals.countP fun x => key x < key u := by
        apply List.countP_congr
        intro x hx
        rw [decide_eq_true_eq, decide_eq_true_eq]
        constructor
        · exact fun hle => hle.trans_lt htu
        · intro hxu
          rcases hnext x hx with hle | ⟨v, hv, hkey⟩
          · exact hle
          · rcases List.mem_cons.1 hv with rfl | hv
            · exact absurd hkey hxu.ne
            · exact absurd (hkey ▸ (List.pairwise_cons.1 hrest).1 v hv) hxu.not_gt
      rw [if_neg henough, hfound]
      rw [hfound] at henough
      apply ih (fun v hv => hmem v (List.mem_cons_of_mem t hv)) hrest _ (Nat.lt_of_not_le henough)
      intro x hx
      rcases hnext x hx with hle | hu
      · exact .inl (hle.trans_lt htu)
      · exact .inr hu

/-- A choice of some of the totals has a boundary. -/
theorem exists_boundary {count : Nat} (hpos : 0 < count) (hcount : count ≤ totals.length) :
  ∃ sorted, sort? rank totals = some sorted ∧ ∃ b ∈ totals, boundary? count totals sorted = some b
    ∧ totals.countP (fun x => key x < key b) < count
    ∧ count ≤ totals.countP fun x => key x ≤ key b
  := by
  obtain ⟨sorted, hsort, hsorted⟩ := exists_sort? h
  have hperm := perm_of_sort? hsort
  use sorted, hsort
  rw [boundary?]
  cases sorted with
  | nil =>
    rw [List.nil_perm] at hperm
    rw [hperm] at hcount
    exact absurd hcount (Nat.not_le_of_gt hpos)
  | cons t ts =>
    have hmem : ∀ x, x ∈ t :: ts ↔ x ∈ totals := fun x => hperm.mem_iff
    obtain ⟨hpairwise, hcover⟩ := distinctFrom_tiers h (fun x => (hmem x).1) hsorted
    have hnone : totals.countP (fun x => key x < key t) = 0 := by
      rw [List.countP_eq_zero]
      intro x hx
      rw [decide_eq_true_eq, not_lt]
      rcases List.mem_cons.1 ((hmem x).2 hx) with rfl | hx
      · exact le_rfl
      · exact (List.pairwise_cons.1 hsorted).1 x hx
    rw [distinct, ← hnone]
    apply exists_boundaryFrom h hcount _ hpairwise _ (hnone.trans_lt hpos)
    · intro u hu
      rcases List.mem_cons.1 hu with rfl | hu
      · exact (hmem u).1 List.mem_cons_self
      · exact (hmem u).1 (List.mem_cons_of_mem t ((distinctFrom_sublist t ts).subset hu))
    · intro x hx
      exact .inr (hcover x ((hmem x).2 hx))

end

/-! ### The elements admitted -/

section

variable {κ : Type} [LinearOrder κ] {rank : Rank} {key : Number → κ} {vs : List Value}
  (h : rank.Keyed key (vs.map Value.total))

include h

theorem exceeds_iff_key {v w : Value} (hv : v ∈ vs) (hw : w ∈ vs) :
  rank.exceeds v.total w.total ↔ key v.total < key w.total
  := by
  rw [Rank.exceeds_iff, h.order _ _ (List.mem_map_of_mem hv) (List.mem_map_of_mem hw),
    compare_lt_iff_lt]

theorem above_eq {v : Value} (hv : v ∈ vs) :
  above rank vs v.total = (vs.map Value.total).countP fun x => key x < key v.total
  := by
  rw [above, List.countP_map]
  apply List.countP_congr
  intro w hw
  rw [exceeds_iff_key h hw hv, Function.comp_apply, decide_eq_true_eq]

/-- Fewer elements are above a more extreme one. -/
theorem above_mono {v w : Value} (hv : v ∈ vs) (hw : w ∈ vs) (hle : key v.total ≤ key w.total) :
  above rank vs v.total ≤ above rank vs w.total
  := by
  rw [above_eq h hv, above_eq h hw]
  apply List.countP_mono_left
  intro x hx hlt
  rw [decide_eq_true_eq] at hlt ⊢
  exact hlt.trans_le hle

/-- No element is above itself, so fewer are above it than there are. -/
theorem above_lt_length {v : Value} (hv : v ∈ vs) :
  above rank vs v.total < vs.length
  := by
  apply Nat.lt_of_le_of_ne List.countP_le_length
  intro hall
  have hself := List.countP_eq_length.1 hall v hv
  rw [exceeds_iff_key h hv hv] at hself
  exact absurd hself (lt_irrefl _)

/-- Of the elements down to the boundary of a choice there are enough, and fewer than the count
are above each of them. -/
theorem exists_boundary_value {count : Nat} (hpos : 0 < count) (hcount : count ≤ vs.length) :
  ∃ sorted, sort? rank (vs.map Value.total) = some sorted
    ∧ ∃ b ∈ vs, boundary? count (vs.map Value.total) sorted = some b.total
      ∧ above rank vs b.total < count
      ∧ count ≤ vs.countP fun v => key v.total ≤ key b.total
  := by
  obtain ⟨sorted, hsort, x, hx, hboundary, habove, henough⟩ :=
    exists_boundary h hpos (hcount.trans_eq (List.length_map Value.total).symm)
  obtain ⟨b, hb, rfl⟩ := List.mem_map.1 hx
  rw [← above_eq h hb] at habove
  rw [List.countP_map] at henough
  exact ⟨sorted, hsort, b, hb, hboundary, habove, henough⟩

/-- Down to the boundary means: below fewer elements than the count. -/
theorem above_lt_iff {count : Nat} {b v : Value} (hb : b ∈ vs) (hv : v ∈ vs)
    (habove : above rank vs b.total < count)
    (henough : count ≤ vs.countP fun w => key w.total ≤ key b.total) :
  above rank vs v.total < count ↔ key v.total ≤ key b.total
  := by
  constructor
  · intro hlt
    by_contra hbelow
    have hle : vs.countP (fun w => key w.total ≤ key b.total) ≤ above rank vs v.total := by
      apply List.countP_mono_left
      intro w hw hwb
      rw [decide_eq_true_eq] at hwb
      exact (exceeds_iff_key h hw hv).2 (hwb.trans_lt (not_le.1 hbelow))
    omega
  · intro hle
    exact Nat.lt_of_le_of_lt (above_mono h hv hb hle) habove

omit h in
/-- To partition by a test that all elements pass, or that none does, is to take all or none. -/
theorem partition_of_forall {test : Value → Bool} {b : Bool} (htest : ∀ v ∈ vs, test v = b) :
  vs.partition test = if b then (vs, []) else ([], vs)
  := by
  rw [List.partition_eq_filter_filter]
  cases b with
  | true =>
    rw [List.filter_eq_self.2 htest, List.filter_eq_nil_iff.2]
    · rfl
    · intro v hv
      simp [htest v hv]
  | false =>
    rw [List.filter_eq_nil_iff.2, List.filter_eq_self.2]
    · rfl
    · intro v hv
      simp [htest v hv]
    · intro v hv
      simp [htest v hv]

/-- A choice admits the elements that fewer elements than the count are above, and rejects the
others. -/
theorem divide?_eq (count : Int64) :
  divide? rank count vs = some (vs.partition (admits rank count vs))
  := by
  have hadmits : ∀ v, admits rank count vs v = true ↔ above rank vs v.total < count.toInt.toNat := by
    intro v
    rw [admits, decide_eq_true_eq]
    omega
  simp only [divide?]
  generalize count.toInt.toNat = n at hadmits
  by_cases hzero : n = 0
  · rw [if_pos hzero, partition_of_forall (b := false)]
    · rfl
    · intro v hv
      rw [← Bool.not_eq_true, hadmits]
      omega
  · rw [if_neg hzero]
    by_cases hall : vs.length ≤ n
    · rw [if_pos hall, partition_of_forall (b := true)]
      · rfl
      · intro v hv
        rw [hadmits]
        have habove := above_lt_length h hv
        omega
    · obtain ⟨sorted, hsort, b, hb, hboundary, habove, henough⟩ :=
        exists_boundary_value h (Nat.pos_of_ne_zero hzero) (Nat.le_of_not_le hall)
      simp only [if_neg hall, hsort, Option.map_some, hboundary, downTo, split,
        List.partition_eq_filter_filter]
      have htest : ∀ v ∈ vs, (rank.order v.total b.total != .gt) = admits rank count vs v := by
        intro v hv
        rw [Bool.eq_iff_iff, hadmits, above_lt_iff h hb hv habove henough, bne_iff_ne,
          h.order _ _ (List.mem_map_of_mem hv) (List.mem_map_of_mem hb), ne_eq,
          compare_gt_iff_gt, not_lt]
      congr 2
      · apply List.filter_congr htest
      · apply List.filter_congr
        intro v hv
        rw [Function.comp_apply, Function.comp_apply, htest v hv]

/-- Equal elements are admitted together. -/
theorem admits_congr {v w : Value} (hv : v ∈ vs) (hw : w ∈ vs) (hkey : key v.total = key w.total)
    (count : Int64) :
  admits rank count vs v = admits rank count vs w
  := by
  have habove : above rank vs v.total = above rank vs w.total := by
    rw [above_eq h hv, above_eq h hw, hkey]
  rw [admits, admits, habove]

/-- What is more extreme than an admitted element is admitted. -/
theorem admits_of_le {v w : Value} (hv : v ∈ vs) (hw : w ∈ vs) (hle : key v.total ≤ key w.total)
    {count : Int64} (hadmits : admits rank count vs w) :
  admits rank count vs v
  := by
  have habove := above_mono h hv hw hle
  rw [admits, decide_eq_true_eq] at hadmits ⊢
  omega

/-- As many elements are admitted as are asked for, or all where there are fewer. -/
theorem min_le_length_admitted (count : Int64) :
  min count.toInt vs.length ≤ (vs.filter (admits rank count vs)).length
  := by
  by_cases hpos : 0 < min count.toInt.toNat vs.length
  · obtain ⟨-, -, b, hb, -, habove, henough⟩ :=
      exists_boundary_value h hpos (Nat.min_le_right _ _)
    have hbelow : vs.countP (fun v => key v.total ≤ key b.total)
        ≤ (vs.filter (admits rank count vs)).length := by
      rw [← List.countP_eq_length_filter]
      apply List.countP_mono_left
      intro v hv hle
      rw [decide_eq_true_eq] at hle
      apply admits_of_le h hv hb hle
      rw [admits, decide_eq_true_eq]
      omega
    omega
  · omega

/-- Without the tier of an element that is admitted and least extreme, fewer elements than the
count are admitted. -/
theorem length_without_tier {v : Value} {count : Int64} (hv : v ∈ vs)
    (hadmits : admits rank count vs v)
    (hleast : ∀ w ∈ vs.filter (admits rank count vs), ¬ rank.exceeds v.total w.total) :
  ((vs.filter (admits rank count vs)).filter fun w => !(w.total == v.total)).length < count.toInt
  := by
  have hle : ((vs.filter (admits rank count vs)).filter fun w => !(w.total == v.total)).length
      ≤ above rank vs v.total := by
    rw [List.filter_filter, ← List.countP_eq_length_filter]
    apply List.countP_mono_left
    intro w hw hboth
    rw [Bool.and_eq_true, Bool.not_eq_true'] at hboth
    obtain ⟨hne, hadmitted⟩ := hboth
    have hnot := hleast w (List.mem_filter.2 ⟨hw, hadmitted⟩)
    rw [exceeds_iff_key h hv hw, not_lt] at hnot
    rw [exceeds_iff_key h hw hv]
    apply lt_of_le_of_ne hnot
    rw [ne_eq, ← h.beq _ _ (List.mem_map_of_mem hw) (List.mem_map_of_mem hv), hne]
    exact Bool.false_ne_true
  rw [admits, decide_eq_true_eq] at hadmits
  omega

end

end Choice

end Dice
