import Dice.Sort.Small
import Mathlib

/-!
# Few elements in order

Whatever the test, a sort that gives a result gives back the elements it was given. Where a key
tells which element comes before which, it gives a result, and that lies in the order of the keys.
The one place at which there might be none is a merge from both ends. With a key, both ends follow
one and the same order of all elements, and so they meet.
-/

namespace Dice.Sort

variable {α : Type}

/-- A key puts some elements in tiers: one comes before another exactly where its key is less. -/
def Keyed {κ : Type} [LinearOrder κ] (before : α → α → Bool) (key : α → κ) (all : List α) : Prop :=
  ∀ x ∈ all, ∀ y ∈ all, before x y = true ↔ key x < key y

/-- The elements of a list lie in the order of their keys. -/
def InOrder {κ : Type} [LinearOrder κ] (key : α → κ) (xs : List α) : Prop :=
  xs.Pairwise fun x y => key x ≤ key y

/-- Whatever a way to sort gives back are the elements it was given. -/
def Permutes (sort? : List α → Option (List α)) : Prop :=
  ∀ ⦃xs ys⦄, sort? xs = some ys → ys.Perm xs

/-- A way to sort gives back the elements it was given in the order of their keys, and never breaks
off. -/
def Orders {κ : Type} [LinearOrder κ] (key : α → κ) (all : List α)
    (sort? : List α → Option (List α)) : Prop :=
  ∀ ⦃xs⦄, xs ⊆ all → ∃ ys, sort? xs = some ys ∧ InOrder key ys

/-! ### Single elements -/

theorem perm_insert (before : α → α → Bool) (x : α) (ys : List α) :
  (insert before x ys).Perm (x :: ys)
  := by
  induction ys with
  | nil => apply List.Perm.refl
  | cons y ys ih =>
    rw [insert]
    split
    · exact (ih.cons y).trans (List.Perm.swap x y ys)
    · apply List.Perm.refl

theorem mem_insert_iff {before : α → α → Bool} {x z : α} {ys : List α} :
  z ∈ insert before x ys ↔ z = x ∨ z ∈ ys
  := by
  rw [(perm_insert before x ys).mem_iff, List.mem_cons]

theorem perm_foldl_insert (before : α → α → Bool) (xs ys : List α) :
  (xs.foldl (fun ys x => insert before x ys) ys).Perm (xs ++ ys)
  := by
  induction xs generalizing ys with
  | nil => apply List.Perm.refl
  | cons x xs ih =>
    have hinsert : (xs ++ insert before x ys).Perm (xs ++ x :: ys) :=
      (perm_insert before x ys).append_left xs
    exact ((ih _).trans hinsert).trans List.perm_middle

theorem perm_insertAll (before : α → α → Bool) (ys xs : List α) :
  (insertAll before ys xs).Perm (ys ++ xs)
  := by
  have h := perm_foldl_insert before xs ys.reverse
  exact (List.reverse_perm _).trans (h.trans (List.perm_append_comm.trans
    ((List.reverse_perm ys).append_right xs)))

theorem perm_pair (first : Bool) (x y : α) :
  ∃ a b, (if first then (y, x) else (x, y)) = (a, b) ∧ [a, b].Perm [x, y]
  := by
  cases first with
  | true => exact ⟨y, x, rfl, List.Perm.swap x y []⟩
  | false => exact ⟨x, y, rfl, List.Perm.refl _⟩

theorem perm_four (before : α → α → Bool) (xs : List α) :
  (four before xs).Perm xs
  := by
  unfold four
  split
  · next w x y z =>
    obtain ⟨a, b, hfirst, hab⟩ := perm_pair (before x w) w x
    obtain ⟨c, d, hsecond, hcd⟩ := perm_pair (before z y) y z
    apply List.Perm.trans _ (hab.append hcd)
    simp only [hfirst, hsecond]
    generalize before c a = low, before d b = high
    generalize hleft : (if low then a else if high then c else b) = left
    generalize hright : (if high then d else if low then b else c) = right
    obtain ⟨p, q, hlast, hpq⟩ := perm_pair (before right left) left right
    simp only [hlast]
    apply ((hpq.append_right [_]).cons _).trans
    subst hleft hright
    have hlow := List.perm_append_comm_assoc [c] [a, b] [d]
    have hhigh := (@List.perm_append_comm _ [c, d] [b]).cons a
    cases low with
    | true =>
      cases high with
      | true => exact (List.Perm.swap a c [d, b]).trans hhigh
      | false => exact hlow
    | false =>
      cases high with
      | true => exact hhigh
      | false => apply List.Perm.refl
  · apply List.Perm.refl

section

variable {κ : Type} [LinearOrder κ] {before : α → α → Bool} {key : α → κ} {all : List α}
  (h : Keyed before key all)

include h

/-- An element is put behind those that come before it, where the others already lie in order, from
the last one back. -/
theorem pairwise_insert {x : α} {ys : List α} (hx : x ∈ all) (hys : ys ⊆ all)
    (hsorted : ys.Pairwise fun a b => key b ≤ key a) :
  (insert before x ys).Pairwise fun a b => key b ≤ key a
  := by
  induction ys with
  | nil => apply List.pairwise_singleton
  | cons y ys ih =>
    obtain ⟨hy, hys⟩ := List.cons_subset.1 hys
    obtain ⟨hle, hrest⟩ := List.pairwise_cons.1 hsorted
    by_cases hlt : key x < key y
    · rw [insert, if_pos ((h x hx y hy).2 hlt)]
      apply List.Pairwise.cons _ (ih hys hrest)
      intro z hz
      rcases mem_insert_iff.1 hz with rfl | hz
      · exact hlt.le
      · exact hle z hz
    · rw [insert, if_neg (mt (h x hx y hy).1 hlt)]
      apply List.Pairwise.cons _ hsorted
      intro z hz
      rcases List.mem_cons.1 hz with rfl | hz
      · exact not_lt.1 hlt
      · exact (hle z hz).trans (not_lt.1 hlt)

theorem pairwise_foldl_insert {xs ys : List α} (hxs : xs ⊆ all) (hys : ys ⊆ all)
    (hsorted : ys.Pairwise fun a b => key b ≤ key a) :
  (xs.foldl (fun ys x => insert before x ys) ys).Pairwise fun a b => key b ≤ key a
  := by
  induction xs generalizing ys with
  | nil => exact hsorted
  | cons x xs ih =>
    obtain ⟨hx, hxs⟩ := List.cons_subset.1 hxs
    apply ih hxs _ (pairwise_insert h hx hys hsorted)
    intro z hz
    rcases mem_insert_iff.1 hz with rfl | hz
    · exact hx
    · exact hys hz

theorem inOrder_insertAll {ys xs : List α} (hys : ys ⊆ all) (hxs : xs ⊆ all)
    (hsorted : InOrder key ys) :
  InOrder key (insertAll before ys xs)
  := by
  rw [InOrder, insertAll, List.pairwise_reverse]
  apply pairwise_foldl_insert h hxs (List.reverse_subset.2 hys)
  exact List.pairwise_reverse.2 hsorted

/-- Two elements, the lesser one first. -/
theorem exists_pair {x y : α} (hx : x ∈ all) (hy : y ∈ all) :
  ∃ a ∈ all, ∃ b ∈ all, (if before y x then (y, x) else (x, y)) = (a, b) ∧ key a ≤ key b
  := by
  by_cases hlt : key y < key x
  · exact ⟨y, hy, x, hx, if_pos ((h y hy x hx).2 hlt), hlt.le⟩
  · exact ⟨x, hx, y, hy, if_neg (mt (h y hy x hx).1 hlt), not_lt.1 hlt⟩

theorem inOrder_between {p q r s : α} (hq : q ∈ all) (hr : r ∈ all)
    (hpq : key p ≤ key q) (hpr : key p ≤ key r) (hqs : key q ≤ key s) (hrs : key r ≤ key s) :
  InOrder key (match if before r q then (r, q) else (q, r) with
    | (low, high) => [p, low, high, s])
  := by
  by_cases hlt : key r < key q
  · rw [if_pos ((h r hr q hq).2 hlt)]
    simp [InOrder, hpq, hpr, hqs, hrs, hlt.le, hpq.trans hqs]
  · rw [if_neg (mt (h r hr q hq).1 hlt)]
    simp [InOrder, hpq, hpr, hqs, hrs, not_lt.1 hlt, hpq.trans hqs]

theorem inOrder_four {w x y z : α} (hall : [w, x, y, z] ⊆ all) :
  InOrder key (four before [w, x, y, z])
  := by
  simp only [List.cons_subset, List.nil_subset, and_true] at hall
  obtain ⟨hw, hx, hy, hz⟩ := hall
  obtain ⟨a, ha, b, hb, hfirst, hab⟩ := exists_pair h hw hx
  obtain ⟨c, hc, d, hd, hsecond, hcd⟩ := exists_pair h hy hz
  simp only [four, hfirst, hsecond, h c hc a ha, h d hd b hb]
  -- The least and the greatest come out by one comparison each, and one more orders the others.
  by_cases hlow : key c < key a <;> by_cases hhigh : key d < key b
  · simp only [if_pos hlow, if_pos hhigh]
    exact inOrder_between h ha hd hlow.le hcd hab hhigh.le
  · simp only [if_pos hlow, if_neg hhigh]
    exact inOrder_between h ha hb hlow.le (hlow.le.trans hab) (hab.trans (not_lt.1 hhigh))
      (not_lt.1 hhigh)
  · simp only [if_neg hlow, if_pos hhigh]
    exact inOrder_between h hc hd (not_lt.1 hlow) ((not_lt.1 hlow).trans hcd)
      (hcd.trans hhigh.le) hhigh.le
  · simp only [if_neg hlow, if_neg hhigh]
    exact inOrder_between h hb hc hab (not_lt.1 hlow) (not_lt.1 hhigh) hcd

end

/-! ### Both ends of a merge -/

@[simp]
theorem lefts_cons_true (x : α) (zs : List (Bool × α)) :
  lefts ((true, x) :: zs) = lefts zs + 1
  := List.countP_cons_of_pos rfl

@[simp]
theorem lefts_cons_false (y : α) (zs : List (Bool × α)) :
  lefts ((false, y) :: zs) = lefts zs
  := List.countP_cons_of_neg Bool.false_ne_true

theorem lefts_append (zs ws : List (Bool × α)) :
  lefts (zs ++ ws) = lefts zs + lefts ws
  := List.countP_append

theorem lefts_map_true (xs : List α) :
  lefts (xs.map (Prod.mk true)) = xs.length
  := by
  induction xs with
  | nil => rfl
  | cons x xs ih => rw [List.map_cons, lefts_cons_true, ih, List.length_cons]

theorem lefts_map_false (ys : List α) :
  lefts (ys.map (Prod.mk false)) = 0
  := by
  induction ys with
  | nil => rfl
  | cons y ys ih => rw [List.map_cons, lefts_cons_false, ih]

/-- The elements in front are the first ones of both lists. -/
theorem perm_front (leftFirst : α → α → Bool) {n : Nat} {xs ys : List α} (hx : n ≤ xs.length)
    (hy : n ≤ ys.length) :
  lefts (front leftFirst n xs ys) ≤ n
    ∧ ((front leftFirst n xs ys).map (·.2)).Perm
      (xs.take (lefts (front leftFirst n xs ys))
        ++ ys.take (n - lefts (front leftFirst n xs ys)))
  := by
  induction n generalizing xs ys with
  | zero => exact ⟨le_rfl, .refl _⟩
  | succ n ih =>
    cases xs with
    | nil => cases hx
    | cons x xs =>
      cases ys with
      | nil => cases hy
      | cons y ys =>
        rw [front]
        split
        · obtain ⟨hle, hperm⟩ := ih (Nat.le_of_succ_le_succ hx) (Nat.le_of_succ_le hy)
          rw [lefts_cons_true, List.map_cons, List.take_succ_cons, Nat.add_sub_add_right]
          exact ⟨Nat.succ_le_succ hle, hperm.cons x⟩
        · obtain ⟨hle, hperm⟩ := ih (Nat.le_of_succ_le hx) (Nat.le_of_succ_le_succ hy)
          rw [lefts_cons_false, List.map_cons, Nat.succ_sub hle, List.take_succ_cons]
          exact ⟨Nat.le_succ_of_le hle, (hperm.cons y).trans List.perm_middle.symm⟩

/-- The elements in front are the first ones of a merge of both lists. -/
theorem front_eq_take (leftFirst : α → α → Bool) {n : Nat} {xs ys : List α} (hx : n ≤ xs.length)
    (hy : n ≤ ys.length) :
  front leftFirst n xs ys
    = ((xs.map (Prod.mk true)).merge (ys.map (Prod.mk false)) fun a b => leftFirst a.2 b.2).take n
  := by
  induction n generalizing xs ys with
  | zero => rfl
  | succ n ih =>
    cases xs with
    | nil => cases hx
    | cons x xs =>
      cases ys with
      | nil => cases hy
      | cons y ys =>
        rw [front, List.map_cons, List.map_cons, List.cons_merge_cons]
        split
        · rw [List.take_succ_cons, ih (Nat.le_of_succ_le_succ hx) (Nat.le_of_succ_le hy),
            List.map_cons]
        · rw [List.take_succ_cons, ih (Nat.le_of_succ_le hx) (Nat.le_of_succ_le_succ hy),
            List.map_cons]

theorem take_append_drop_take (xs : List α) {i j : Nat} (h : i + j ≤ xs.length) :
  xs.take i ++ ((xs.drop i).take j ++ (xs.reverse.take (xs.length - (i + j))).reverse) = xs
  := by
  rw [List.take_reverse, List.reverse_reverse, Nat.sub_sub_self h, ← List.drop_drop,
    List.take_append_drop, List.take_append_drop]

theorem perm_append_crosswise (as bs ms ns cs ds : List α) :
  ((as ++ bs) ++ (ms ++ ns) ++ (cs ++ ds)).Perm ((as ++ (ms ++ cs)) ++ (bs ++ (ns ++ ds)))
  := by
  simp only [List.append_assoc]
  apply List.Perm.append_left as
  apply (List.perm_append_comm_assoc bs ms _).trans
  apply List.Perm.append_left ms
  apply (List.Perm.append_left bs (List.perm_append_comm_assoc ns cs ds)).trans
  apply List.perm_append_comm_assoc

theorem perm_lowEnd (before : α → α → Bool) {xs ys : List α} (hlen : xs.length ≤ ys.length) :
  lefts (lowEnd before xs ys) ≤ xs.length
    ∧ ((lowEnd before xs ys).map (·.2)).Perm
      (xs.take (lefts (lowEnd before xs ys))
        ++ ys.take (xs.length - lefts (lowEnd before xs ys)))
  := perm_front _ le_rfl hlen

theorem perm_highEnd (before : α → α → Bool) {xs ys : List α} (hlen : xs.length ≤ ys.length) :
  lefts (highEnd before xs ys) ≤ xs.length
    ∧ ((highEnd before xs ys).map (·.2)).Perm
      (xs.reverse.take (lefts (highEnd before xs ys))
        ++ ys.reverse.take (xs.length - lefts (highEnd before xs ys)))
  := perm_front _ xs.length_reverse.ge (hlen.trans ys.length_reverse.ge)

/-- Where the ends meet, with `i` elements of the first list and `j` of the second left between
them, every element is there once. -/
theorem perm_of_ends (before : α → α → Bool) {xs ys : List α} (hlen : xs.length ≤ ys.length)
    {i j : Nat} (hodd : i + j = ys.length - xs.length)
    (h : lefts (lowEnd before xs ys) + lefts (highEnd before xs ys) + i = xs.length) :
  (((lowEnd before xs ys).map (·.2))
      ++ ((xs.drop (lefts (lowEnd before xs ys))).take i
        ++ (ys.drop (xs.length - lefts (lowEnd before xs ys))).take j)
      ++ ((highEnd before xs ys).map (·.2)).reverse).Perm
    (xs ++ ys)
  := by
  obtain ⟨hlow, hlowperm⟩ := perm_lowEnd before hlen
  obtain ⟨hhigh, hhighperm⟩ := perm_highEnd before hlen
  generalize lowEnd before xs ys = low at *
  generalize highEnd before xs ys = high at *
  have hxs := take_append_drop_take xs (i := lefts low) (j := i) (by omega)
  have hys := take_append_drop_take ys (i := xs.length - lefts low) (j := j) (by omega)
  rw [show xs.length - (lefts low + i) = lefts high by omega] at hxs
  rw [show ys.length - (xs.length - lefts low + j) = xs.length - lefts high by omega] at hys
  have hhigh' := (List.reverse_perm (high.map (·.2))).trans (hhighperm.trans
    ((List.reverse_perm (xs.reverse.take _)).symm.append (List.reverse_perm _).symm))
  apply ((hlowperm.append_right _).append hhigh').trans
  apply (perm_append_crosswise _ _ _ _ _ _).trans
  rw [hxs, hys]

/-- Where the ends meet, every element is there once. -/
theorem perm_of_meet {before : α → α → Bool} {xs ys zs : List α} (hlen : xs.length ≤ ys.length)
    (h : meet before xs ys = some zs) :
  zs.Perm (xs ++ ys)
  := by
  simp only [meet] at h
  split at h
  · next hmeet =>
    cases h
    have hperm := perm_of_ends before hlen (Nat.zero_add _) hmeet
    rwa [List.take_zero, List.nil_append] at hperm
  · split at h
    · next hmeet =>
      cases h
      have hperm := perm_of_ends before hlen (Nat.add_zero _) hmeet
      rwa [List.take_zero, List.append_nil] at hperm
    · cases h

theorem eq_of_perm_of_length_le_one {β : Type} {xs ys : List β} (h : xs.Perm ys)
    (hlen : xs.length ≤ 1) :
  xs = ys
  := by
  match xs with
  | [] => exact h.nil_eq
  | [x] => exact h.singleton_eq

/-- Where an element of two lists stands in their merge: by its key, and then in the first list
before the second. -/
def place {κ : Type} (key : α → κ) (z : Bool × α) : κ ×ₗ Bool :=
  toLex (key z.2, !z.1)

theorem keys_of_places {κ : Type} (key : α → κ) (zs : List (Bool × α)) :
  (zs.map (place key)).map (fun p => (ofLex p).1) = (zs.map (·.2)).map key
  := by
  rw [List.map_map, List.map_map]
  rfl

theorem lefts_eq {κ : Type} (key : α → κ) (zs : List (Bool × α)) :
  lefts zs = (zs.map (place key)).countP fun p => !(ofLex p).2
  := by
  rw [lefts, List.countP_map]
  apply List.countP_congr
  intro z hz
  rw [Function.comp_apply, place, ofLex_toLex, Bool.not_not]

section

variable {κ : Type} [LinearOrder κ] {before : α → α → Bool} {key : α → κ} {all : List α}

theorem InOrder.places {xs : List α} (h : InOrder key xs) (b : Bool) :
  ((xs.map (Prod.mk b)).map (place key)).Pairwise (· ≤ ·)
  := by
  rw [List.map_map, List.pairwise_map]
  apply List.Pairwise.imp _ h
  intro x y hle
  simp only [Function.comp_apply, place, Prod.Lex.toLex_le_toLex, le_refl, and_true]
  exact hle.lt_or_eq

theorem InOrder.places_reverse {xs : List α} (h : InOrder key xs) (b : Bool) :
  ((xs.reverse.map (Prod.mk b)).map (place key)).Pairwise (· ≥ ·)
  := by
  rw [List.map_reverse, List.map_reverse]
  exact List.pairwise_reverse.2 (h.places b)

/-- The elements of two lists, each at its place in their merge. -/
def places {κ : Type} (key : α → κ) (xs ys : List α) : List (κ ×ₗ Bool) :=
  (xs.map (Prod.mk true) ++ ys.map (Prod.mk false)).map (place key)

theorem keys_of_append_places {κ : Type} (key : α → κ) (xs ys : List α) :
  (places key xs ys).map (fun p => (ofLex p).1) = (xs ++ ys).map key
  := by
  rw [places, keys_of_places, List.map_append, List.map_append]
  simp [Function.comp_def]

section

variable (h : Keyed before key all) {xs ys : List α} (hxs : xs ⊆ all) (hys : ys ⊆ all)
  (hx : InOrder key xs) (hy : InOrder key ys) (hlen : xs.length ≤ ys.length)

include h hxs hys

include hlen in
/-- A merge from the front lays the elements out by their places. -/
theorem map_lowEnd :
  (lowEnd before xs ys).map (place key)
    = (((xs.map (Prod.mk true)).map (place key)).merge ((ys.map (Prod.mk false)).map (place key))
      fun p q => decide (p ≤ q)).take xs.length
  := by
  rw [lowEnd, front_eq_take _ le_rfl hlen, List.map_take, List.map_merge]
  intro a ha b hb
  obtain ⟨x, hx, rfl⟩ := List.mem_map.1 ha
  obtain ⟨y, hy, rfl⟩ := List.mem_map.1 hb
  rw [Bool.eq_iff_iff, Bool.not_eq_true', ← Bool.not_eq_true, h y (hys hy) x (hxs hx), not_lt,
    decide_eq_true_eq, place, place, Prod.Lex.toLex_le_toLex, le_iff_lt_or_eq]
  simp

include hlen in
/-- A merge from the back lays the elements out by their places, the last place first. -/
theorem map_highEnd :
  (highEnd before xs ys).map (place key)
    = (((xs.reverse.map (Prod.mk true)).map (place key)).merge
      ((ys.reverse.map (Prod.mk false)).map (place key)) fun p q => decide (p ≥ q)).take xs.length
  := by
  rw [highEnd, front_eq_take _ xs.length_reverse.ge (hlen.trans ys.length_reverse.ge),
    List.map_take, List.map_merge]
  intro a ha b hb
  obtain ⟨x, hx, rfl⟩ := List.mem_map.1 ha
  obtain ⟨y, hy, rfl⟩ := List.mem_map.1 hb
  rw [Bool.eq_iff_iff, h y (hys (List.mem_reverse.1 hy)) x (hxs (List.mem_reverse.1 hx)),
    decide_eq_true_eq, ge_iff_le, place, place, Prod.Lex.toLex_le_toLex]
  simp

include hx hy hlen

/-- Both ends follow one and the same order of all places. -/
theorem exists_places :
  ∃ ps : List (κ ×ₗ Bool), ps.Pairwise (· ≤ ·) ∧ ps.Perm (places key xs ys)
    ∧ (lowEnd before xs ys).map (place key) = ps.take xs.length
    ∧ (highEnd before xs ys).map (place key) = ps.reverse.take xs.length
  := by
  have hsorted := (hx.places true).merge (hy.places false)
  have hsorted' := (hx.places_reverse true).merge (hy.places_reverse false)
  refine ⟨_, hsorted, ?_, map_lowEnd h hxs hys hlen, ?_⟩
  · rw [places, List.map_append]
    apply List.merge_perm_append
  · rw [map_highEnd h hxs hys hlen]
    congr 1
    apply List.Perm.eq_of_pairwise' hsorted' (List.pairwise_reverse.2 hsorted)
    apply (List.merge_perm_append _).trans
    apply List.Perm.trans _ ((List.merge_perm_append _).symm.trans (List.reverse_perm _).symm)
    exact ((xs.reverse_perm.map _).map _).append ((ys.reverse_perm.map _).map _)

/-- What lies between both ends is at most the one element by which the second list is longer. -/
theorem exists_middle :
  ∃ middle : List (κ ×ₗ Bool), middle.length = ys.length - xs.length
    ∧ ((lowEnd before xs ys).map (place key)
      ++ (middle ++ ((highEnd before xs ys).map (place key)).reverse)).Pairwise (· ≤ ·)
    ∧ ((lowEnd before xs ys).map (place key)
      ++ (middle ++ ((highEnd before xs ys).map (place key)).reverse)).Perm (places key xs ys)
  := by
  obtain ⟨ps, hsorted, hperm, hlow, hhigh⟩ := exists_places h hxs hys hx hy hlen
  have hlength : ps.length = xs.length + ys.length := by
    simp [hperm.length_eq, places]
  have hparts := take_append_drop_take ps (i := xs.length) (j := ys.length - xs.length) (by omega)
  rw [show ps.length - (xs.length + (ys.length - xs.length)) = xs.length by omega] at hparts
  use (ps.drop xs.length).take (ys.length - xs.length)
  rw [hlow, hhigh, hparts]
  refine ⟨?_, hsorted, hperm⟩
  rw [List.length_take, List.length_drop]
  omega

/-- The ends meet, with at most one element between them. -/
theorem exists_between (hodd : ys.length ≤ xs.length + 1) :
  ∃ between, between.length ≤ 1
    ∧ meet before xs ys = some ((lowEnd before xs ys).map (·.2)
      ++ (between ++ ((highEnd before xs ys).map (·.2)).reverse))
  := by
  obtain ⟨middle, hmiddle, -, hperm⟩ := exists_middle h hxs hys hx hy hlen
  have hcount := hperm.countP_eq fun p => !(ofLex p).2
  rw [places, List.countP_append, List.countP_append, List.countP_reverse, ← lefts_eq, ← lefts_eq,
    ← lefts_eq, lefts_append, lefts_map_true, lefts_map_false] at hcount
  have hle := middle.countP_le_length (p := fun p => !(ofLex p).2)
  have htake : ∀ zs : List α, (zs.take (ys.length - xs.length)).length ≤ 1 := fun zs =>
    (List.length_take_le _ zs).trans (by omega)
  simp only [meet, List.append_assoc]
  split
  · exact ⟨_, htake _, rfl⟩
  · rw [if_pos (by omega)]
    exact ⟨_, htake _, rfl⟩

/-- With a key, a merge from both ends has a result, which lies in order. -/
theorem exists_meet (hodd : ys.length ≤ xs.length + 1) :
  ∃ zs, meet before xs ys = some zs ∧ InOrder key zs
  := by
  obtain ⟨between, hbetween, hmeet⟩ := exists_between h hxs hys hx hy hlen hodd
  obtain ⟨middle, -, hsorted, hperm⟩ := exists_middle h hxs hys hx hy hlen
  refine ⟨_, hmeet, ?_⟩
  have hkeys := hsorted.map (S := (· ≤ ·)) (fun p => (ofLex p).1)
    fun p q => Prod.Lex.monotone_fst p q
  have hpermkeys := hperm.map fun p => (ofLex p).1
  rw [keys_of_append_places] at hpermkeys
  have hsame := ((perm_of_meet hlen hmeet).map key).trans hpermkeys.symm
  simp only [List.map_append, List.map_reverse, keys_of_places] at hkeys hsame
  -- Both ends are the same, and so is the one element that may lie between them.
  have hmid := (List.perm_append_right_iff _).1 ((List.perm_append_left_iff _).1 hsame)
  have heq := eq_of_perm_of_length_le_one hmid ((List.length_map _).trans_le hbetween)
  rw [InOrder, ← List.pairwise_map (f := key) (R := (· ≤ ·))]
  simp only [List.map_append, List.map_reverse]
  rwa [heq]

end

end

/-! ### Halves -/

theorem perm_of_half {before : α → α → Bool} {n : Nat} {xs ys : List α} (hlen : n / 2 ≤ xs.length)
    (h : half before n xs = some ys) :
  ys.Perm xs
  := by
  rw [half] at h
  split at h
  · obtain ⟨eight, hmeet, rfl⟩ := Option.map_eq_some_iff.1 h
    have hlengths : (four before (xs.take 4)).length
        ≤ (four before ((xs.drop 4).take 4)).length := by
      rw [(perm_four before _).length_eq, (perm_four before _).length_eq, List.length_take,
        List.length_take, List.length_drop]
      omega
    have height : eight.Perm (xs.take 8) := by
      rw [show 8 = 4 + 4 from rfl, List.take_add]
      exact (perm_of_meet hlengths hmeet).trans ((perm_four before _).append (perm_four before _))
    have hall := (perm_insertAll before eight (xs.drop 8)).trans (height.append_right _)
    rwa [List.take_append_drop] at hall
  · split at h
    · cases h
      have hall := (perm_insertAll before (four before (xs.take 4)) (xs.drop 4)).trans
        ((perm_four before _).append_right _)
      rwa [List.take_append_drop] at hall
    · cases h
      apply perm_insertAll

theorem length_halves (xs : List α) :
  (xs.take (xs.length / 2)).length = xs.length / 2
    ∧ xs.length / 2 ≤ (xs.drop (xs.length / 2)).length
    ∧ (xs.drop (xs.length / 2)).length ≤ xs.length / 2 + 1
  := by
  rw [List.length_take, List.length_drop]
  omega

theorem permutes_small (before : α → α → Bool) :
  Permutes (small before)
  := by
  intro xs ys h
  simp only [small] at h
  split at h
  · cases h
    apply List.Perm.refl
  · obtain ⟨left, hleft, h⟩ := Option.bind_eq_some_iff.1 h
    obtain ⟨right, hright, h⟩ := Option.bind_eq_some_iff.1 h
    obtain ⟨hhalf, hhalf'⟩ := length_halves xs
    have hleft' := perm_of_half hhalf.ge hleft
    have hright' := perm_of_half hhalf'.1 hright
    have hlen : left.length ≤ right.length := by
      rw [hleft'.length_eq, hright'.length_eq, hhalf]
      exact hhalf'.1
    have hall := (perm_of_meet hlen h).trans (hleft'.append hright')
    rwa [List.take_append_drop] at hall

section

variable {κ : Type} [LinearOrder κ] {before : α → α → Bool} {key : α → κ} {all : List α}
  (h : Keyed before key all)

include h

theorem inOrder_four_take {xs : List α} (hxs : xs ⊆ all) (hlen : 4 ≤ xs.length) :
  InOrder key (four before (xs.take 4))
  := by
  match xs with
  | w :: x :: y :: z :: xs =>
    apply inOrder_four h
    exact List.Subset.trans (List.take_subset 4 (w :: x :: y :: z :: xs)) hxs

/-- With a key, a half is sorted. -/
theorem exists_half {n : Nat} {xs : List α} (hxs : xs ⊆ all) (hlen : n / 2 ≤ xs.length) :
  ∃ ys, half before n xs = some ys ∧ InOrder key ys
  := by
  have hfour : ∀ {zs : List α}, zs ⊆ all → four before (zs.take 4) ⊆ all := by
    intro zs hzs
    exact List.Subset.trans (perm_four before _).subset
      (List.Subset.trans (List.take_subset 4 zs) hzs)
  have hdrop : ∀ k, xs.drop k ⊆ all := fun k => List.Subset.trans (List.drop_subset k xs) hxs
  rw [half]
  split
  · have hlength : ∀ zs : List α, 4 ≤ zs.length → (four before (zs.take 4)).length = 4 := by
      intro zs hzs
      rw [(perm_four before _).length_eq, List.length_take, Nat.min_eq_left hzs]
    have hfirst : 4 ≤ xs.length := by omega
    have hsecond : 4 ≤ (xs.drop 4).length := by
      rw [List.length_drop]
      omega
    have heq := (hlength _ hfirst).trans (hlength _ hsecond).symm
    obtain ⟨eight, hmeet, hsorted⟩ := exists_meet h (hfour hxs) (hfour (hdrop 4))
      (inOrder_four_take h hxs hfirst) (inOrder_four_take h (hdrop 4) hsecond) heq.le
      (Nat.le_succ_of_le heq.ge)
    rw [hmeet]
    refine ⟨_, rfl, inOrder_insertAll h ?_ (hdrop 8) hsorted⟩
    exact List.Subset.trans (perm_of_meet heq.le hmeet).subset
      (List.append_subset.2 ⟨hfour hxs, hfour (hdrop 4)⟩)
  · split
    · exact ⟨_, rfl, inOrder_insertAll h (hfour hxs) (hdrop 4)
        (inOrder_four_take h hxs (by omega))⟩
    · exact ⟨_, rfl, inOrder_insertAll h (List.nil_subset all) hxs List.Pairwise.nil⟩

/-- With a key, few elements are sorted. -/
theorem orders_small :
  Orders key all (small before)
  := by
  intro xs hxs
  simp only [small]
  split
  · next hfew =>
    refine ⟨xs, rfl, ?_⟩
    match xs with
    | [] => exact List.Pairwise.nil
    | [x] => exact List.pairwise_singleton _ x
    | x :: y :: xs =>
      rw [List.length_cons, List.length_cons] at hfew
      omega
  · obtain ⟨hhalf, hhalf', hodd⟩ := length_halves xs
    have hleft : xs.take (xs.length / 2) ⊆ all := List.Subset.trans (List.take_subset _ xs) hxs
    have hright : xs.drop (xs.length / 2) ⊆ all := List.Subset.trans (List.drop_subset _ xs) hxs
    obtain ⟨ls, hls, hlsorted⟩ := exists_half h hleft hhalf.ge
    obtain ⟨rs, hrs, hrsorted⟩ := exists_half h hright hhalf'
    have hlperm := perm_of_half hhalf.ge hls
    have hrperm := perm_of_half hhalf' hrs
    rw [hls, hrs]
    apply exists_meet h (List.Subset.trans hlperm.subset hleft)
      (List.Subset.trans hrperm.subset hright) hlsorted hrsorted
    · rw [hlperm.length_eq, hrperm.length_eq, hhalf]
      exact hhalf'
    · rw [hlperm.length_eq, hrperm.length_eq, hhalf]
      exact hodd

end

end Dice.Sort
