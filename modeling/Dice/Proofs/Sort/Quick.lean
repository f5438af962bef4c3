import Dice.Proofs.Sort.Small
import Dice.Sort.Quick

/-!
# Sorting by a pivot in order

The pivot is one of the elements, and the two parts are the elements again, whatever the test. With
a key, the elements of the first part are less than those of the second. That nothing comes before
the pivot, or before an earlier pivot equal to it, says that the elements up to it are all equal.
-/

namespace Dice.Sort

variable {α : Type}

/-! ### The pivot -/

theorem median_mem (before : α → α → Bool) {a b c : α} {xs : List α} (ha : a ∈ xs) (hb : b ∈ xs)
    (hc : c ∈ xs) :
  median before a b c ∈ xs
  := by
  simp only [median]
  split
  · split
    · exact hb
    · exact hc
  · exact ha

theorem medianAt_mem (before : α → α → Bool) {get : Nat → α} {xs : List α} (hget : ∀ i, get i ∈ xs)
    (n a b c : Nat) :
  medianAt before get n a b c ∈ xs
  := by
  induction n using Nat.strongRecOn generalizing a b c with
  | ind n ih =>
    rw [medianAt]
    split
    · next hmany =>
      have hless : n / 8 < n := by omega
      exact median_mem before (ih _ hless _ _ _) (ih _ hless _ _ _) (ih _ hless _ _ _)
    · exact median_mem before (hget a) (hget b) (hget c)

theorem mem_of_pivot? {before : α → α → Bool} {xs : List α} {p : α}
    (h : pivot? before xs = some p) :
  p ∈ xs
  := by
  obtain ⟨x, hx, rfl⟩ := Option.map_eq_some_iff.1 h
  apply medianAt_mem
  intro i
  rw [List.getD_eq_getElem?_getD]
  cases hi : xs[i]? with
  | none => exact List.mem_of_head? hx
  | some y => exact List.mem_of_getElem? hi

theorem exists_pivot? (before : α → α → Bool) {xs : List α} (h : xs ≠ []) :
  ∃ p, pivot? before xs = some p
  := by
  cases xs with
  | nil => exact absurd rfl h
  | cons x xs => exact ⟨_, rfl⟩

/-! ### The parts -/

theorem permutes_quick (before : α → α → Bool) {otherwise : List α → Option (List α)}
    (hother : Permutes otherwise) (limit : Nat) (bound? : Option α) :
  Permutes (quick before otherwise limit bound?)
  := by
  induction limit generalizing bound? with
  | zero =>
    intro xs ys h
    rw [quick] at h
    split at h
    · exact permutes_small before h
    · exact hother h
  | succ limit ih =>
    intro xs ys h
    rw [quick] at h
    split at h
    · exact permutes_small before h
    · obtain ⟨p, hp, h⟩ := Option.bind_eq_some_iff.1 h
      simp only at h
      split at h
      · obtain ⟨greater, hgreater, h⟩ := Option.bind_eq_some_iff.1 h
        cases h
        have hparts := List.filter_append_perm (fun x => before p x) xs
        exact ((ih _ hgreater).append_left _).trans (List.perm_append_comm.trans hparts)
      · obtain ⟨others, hothers, h⟩ := Option.bind_eq_some_iff.1 h
        obtain ⟨lesser, hlesser, h⟩ := Option.bind_eq_some_iff.1 h
        cases h
        have hparts := List.filter_append_perm (fun x => before x p) xs
        exact ((ih _ hlesser).append (ih _ hothers)).trans hparts

section

variable {κ : Type} [LinearOrder κ] {before : α → α → Bool} {key : α → κ} {all : List α}

/-- Elements up to a pivot and elements from it on. -/
theorem InOrder.append {xs ys : List α} (hx : InOrder key xs) (hy : InOrder key ys) {p : α}
    (hxp : ∀ x ∈ xs, key x ≤ key p) (hpy : ∀ y ∈ ys, key p ≤ key y) :
  InOrder key (xs ++ ys)
  := List.pairwise_append.2 ⟨hx, hy, fun x hx y hy => (hxp x hx).trans (hpy y hy)⟩

variable (h : Keyed before key all)

include h

theorem Keyed.not_before {x y : α} (hx : x ∈ all) (hy : y ∈ all) :
  (!before x y) = true ↔ key y ≤ key x
  := by
  rw [Bool.not_eq_true', ← Bool.not_eq_true, h x hx y hy, not_lt]

/-- Where the pivot is no more than a bound of all elements, or nothing comes before it, it is the
least of them. -/
theorem pivot_le {bound? : Option α} {xs : List α} {p : α} (hxs : xs ⊆ all) (hp : p ∈ all)
    (hbound : ∀ b ∈ bound?, b ∈ all ∧ ∀ x ∈ xs, key b ≤ key x)
    (hequal : (bound?.any (fun b => !before b p)
      || (xs.filter fun x => before x p).isEmpty) = true) :
  ∀ x ∈ xs, key p ≤ key x
  := by
  intro x hx
  rcases (Bool.or_eq_true _ _).mp hequal with hany | hempty
  · obtain ⟨b, hb, hbp⟩ := (Option.any_eq_true _ _).mp hany
    obtain ⟨hball, hbound⟩ := hbound b hb
    exact ((h.not_before hball hp).1 hbp).trans (hbound x hx)
  · rw [List.isEmpty_iff, List.filter_eq_nil_iff] at hempty
    exact not_lt.1 (mt (h x (hxs hx) p hp).2 (hempty x hx))

/-- The elements up to a pivot that is the least of all, which are equal, and then the others. -/
theorem inOrder_upto {xs greater : List α} {p : α} (hxs : xs ⊆ all) (hp : p ∈ all)
    (hleast : ∀ x ∈ xs, key p ≤ key x) (hperm : greater.Perm (xs.filter fun x => before p x))
    (hsorted : InOrder key greater) :
  InOrder key (xs.filter (fun x => !before p x) ++ greater)
  := by
  have hupto : ∀ x ∈ xs.filter fun x => !before p x, x ∈ xs ∧ key x ≤ key p := by
    intro x hx
    obtain ⟨hx, hpx⟩ := List.mem_filter.1 hx
    exact ⟨hx, (h.not_before hp (hxs hx)).1 hpx⟩
  apply InOrder.append _ hsorted (fun x hx => (hupto x hx).2)
  · intro x hx
    exact hleast x (List.mem_filter.1 (hperm.mem_iff.1 hx)).1
  · apply List.pairwise_of_forall_mem_list
    intro x hx y hy
    exact (hupto x hx).2.trans (hleast y (hupto y hy).1)

/-- The elements before a pivot, and then the others. -/
theorem inOrder_divided {xs lesser others : List α} {p : α} (hxs : xs ⊆ all) (hp : p ∈ all)
    (hlperm : lesser.Perm (xs.filter fun x => before x p)) (hlsorted : InOrder key lesser)
    (hoperm : others.Perm (xs.filter fun x => !before x p)) (hosorted : InOrder key others) :
  InOrder key (lesser ++ others)
  := by
  apply InOrder.append hlsorted hosorted (p := p)
  · intro x hx
    obtain ⟨hx, hxp⟩ := List.mem_filter.1 (hlperm.mem_iff.1 hx)
    exact ((h x (hxs hx) p hp).1 hxp).le
  · intro x hx
    obtain ⟨hx, hxp⟩ := List.mem_filter.1 (hoperm.mem_iff.1 hx)
    exact (h.not_before (hxs hx) hp).1 hxp

/-- With a key, sorting by pivots orders the elements that do not come before the bound. -/
theorem exists_quick {otherwise : List α → Option (List α)} (hperm : Permutes otherwise)
    (hother : Orders key all otherwise) (limit : Nat) {bound? : Option α} {xs : List α}
    (hxs : xs ⊆ all) (hbound : ∀ b ∈ bound?, b ∈ all ∧ ∀ x ∈ xs, key b ≤ key x) :
  ∃ ys, quick before otherwise limit bound? xs = some ys ∧ InOrder key ys
  := by
  induction limit generalizing bound? xs with
  | zero =>
    rw [quick]
    split
    · exact orders_small h hxs
    · exact hother hxs
  | succ limit ih =>
    have hpart : ∀ test : α → Bool, xs.filter test ⊆ all := fun test =>
      List.Subset.trans (List.filter_subset_self xs) hxs
    have hpartperm := @permutes_quick _ before _ hperm limit
    rw [quick]
    split
    · exact orders_small h hxs
    · next hmany =>
      have hne : xs ≠ [] := by
        rintro rfl
        exact hmany (Nat.zero_le _)
      obtain ⟨p, hp⟩ := exists_pivot? before hne
      have hpall := hxs (mem_of_pivot? hp)
      simp only [hp, Option.bind_eq_bind, Option.bind_some]
      split
      · next hequal =>
        have hnone : ∀ b ∈ (none : Option α), b ∈ all
            ∧ ∀ x ∈ xs.filter fun x => before p x, key b ≤ key x := by
          intro b hb
          cases hb
        obtain ⟨greater, hgreater, hsorted⟩ := ih (hpart _) hnone
        rw [hgreater]
        exact ⟨_, rfl, inOrder_upto h hxs hpall (pivot_le h hxs hpall hbound hequal)
          (hpartperm _ hgreater) hsorted⟩
      · have hpivot : ∀ b ∈ some p, b ∈ all
            ∧ ∀ x ∈ xs.filter fun x => !before x p, key b ≤ key x := by
          rintro b ⟨⟩
          use hpall
          intro x hx
          obtain ⟨hx, hxp⟩ := List.mem_filter.1 hx
          exact (h.not_before (hxs hx) hpall).1 hxp
        have hbound' : ∀ b ∈ bound?, b ∈ all
            ∧ ∀ x ∈ xs.filter fun x => before x p, key b ≤ key x := by
          intro b hb
          obtain ⟨hball, hb⟩ := hbound b hb
          exact ⟨hball, fun x hx => hb x (List.mem_filter.1 hx).1⟩
        obtain ⟨others, hothers, hosorted⟩ := ih (hpart _) hpivot
        obtain ⟨lesser, hlesser, hlsorted⟩ := ih (hpart _) hbound'
        rw [hothers, hlesser]
        exact ⟨_, rfl, inOrder_divided h hxs hpall (hpartperm _ hlesser) hlsorted
          (hpartperm _ hothers) hosorted⟩

end

end Dice.Sort
