import Dice.Proofs.Sort.Runs
import Dice.Sort

/-!
# Sorting in order

A sort gives back the elements it was given, or it breaks off. It does not break off for as few as
twenty elements, whatever the test, nor for any number of elements where a key tells which one
comes before which; these it gives back in the order of their keys.
-/

namespace Dice.Sort

variable {α : Type}

theorem permutes_some :
  Permutes (some : List α → Option (List α))
  := by
  intro xs ys h
  cases h
  apply List.Perm.refl

theorem permutes_eagerly (before : α → α → Bool) (room : Nat) :
  Permutes (eagerly before room)
  := permutes_sortRuns permutes_some true

theorem permutes_quickly (before : α → α → Bool) (room : Nat) :
  Permutes (quickly before room)
  := by
  intro xs ys h
  exact permutes_quick before (permutes_eagerly before room) _ none h

/-- Whatever the test, a sort gives back the elements it was given, if it gives any. -/
theorem permutes_sort? (before : α → α → Bool) :
  Permutes (sort? before)
  := by
  intro xs ys h
  simp only [sort?] at h
  split at h
  · cases h
    exact perm_insertAll before [] xs
  · exact permutes_sortRuns (permutes_quickly before _) _ h

/-- Whatever the test, a sort of few elements does not break off. -/
theorem sort?_of_length_le (before : α → α → Bool) {xs : List α} (h : xs.length ≤ 20) :
  sort? before xs = some (insertAll before [] xs)
  := if_pos h

section

variable {κ : Type} [LinearOrder κ] {before : α → α → Bool} {key : α → κ} {all : List α}
  (h : Keyed before key all)

include h

theorem orders_eagerly (room : Nat) :
  Orders key all (eagerly before room)
  := orders_sortRuns h permutes_some room fun heager => absurd heager.symm Bool.false_ne_true

theorem orders_quickly (room : Nat) :
  Orders key all (quickly before room)
  := by
  intro xs hxs
  apply exists_quick h (permutes_eagerly before room) (orders_eagerly h room) _ hxs
  intro b hb
  cases hb

/-- With a key, a sort gives back its elements in order. -/
theorem orders_sort? :
  Orders key all (sort? before)
  := by
  intro xs hxs
  simp only [sort?]
  split
  · exact ⟨_, rfl, inOrder_insertAll h (List.nil_subset all) hxs List.Pairwise.nil⟩
  · exact orders_sortRuns h (permutes_quickly before _) _ (fun _ => orders_quickly h _) hxs

end

end Dice.Sort
