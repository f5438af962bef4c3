import Dice.Proofs.Sort.Quick
import Dice.Sort.Runs

/-!
# Sorting by runs in order

Runs are found and merged without losing an element, whatever the test. With a key, a run that is
marked as sorted lies in order: so it is when it is found, and when two runs are joined. The last
run that is left has all elements.
-/

namespace Dice.Sort

variable {α : Type}

/-! ### Finding runs -/

theorem stretch_append (follows : α → α → Bool) (x : α) (ys : List α) :
  (stretch follows x ys).1 ++ (stretch follows x ys).2 = x :: ys
  := by
  induction ys generalizing x with
  | nil => rfl
  | cons y ys ih =>
    rw [stretch]
    split
    · exact congrArg (x :: ·) (ih y)
    · rfl

theorem exists_stretch_eq_cons (follows : α → α → Bool) (x : α) (ys : List α) :
  ∃ zs, (stretch follows x ys).1 = x :: zs
  := by
  cases ys with
  | nil => exact ⟨_, rfl⟩
  | cons y ys =>
    rw [stretch]
    split
    · exact ⟨_, rfl⟩
    · exact ⟨_, rfl⟩

/-- Elements that follow one another stand in a transitive relation throughout. -/
theorem pairwise_stretch {r : α → α → Prop} (htrans : ∀ {a b c}, r a b → r b c → r a c)
    {follows : α → α → Bool} {x : α} {ys : List α}
    (hr : ∀ a ∈ x :: ys, ∀ b ∈ x :: ys, follows a b = true → r a b) :
  (stretch follows x ys).1.Pairwise r
  := by
  induction ys generalizing x with
  | nil => apply List.pairwise_singleton
  | cons y ys ih =>
    have hrest := ih fun a ha b hb =>
      hr a (List.mem_cons_of_mem x ha) b (List.mem_cons_of_mem x hb)
    rw [stretch]
    split
    · next hfollows =>
      have hxy := hr x List.mem_cons_self y (List.mem_cons_of_mem x List.mem_cons_self) hfollows
      obtain ⟨zs, hzs⟩ := exists_stretch_eq_cons follows y ys
      apply List.Pairwise.cons _ hrest
      rw [hzs] at hrest ⊢
      intro z hz
      rcases List.mem_cons.1 hz with rfl | hz
      · exact hxy
      · exact htrans hxy ((List.pairwise_cons.1 hrest).1 z hz)
    · apply List.pairwise_singleton

theorem perm_ordered (before : α → α → Bool) (xs : List α) :
  ((ordered before xs).1 ++ (ordered before xs).2).Perm xs
  := by
  match xs with
  | [] => apply List.Perm.refl
  | [x] => apply List.Perm.refl
  | x :: y :: ys =>
    rw [ordered]
    split
    · have happend := stretch_append (fun a b => before b a) x (y :: ys)
      have hperm := (List.reverse_perm (stretch (fun a b => before b a) x (y :: ys)).1).append_right
        (stretch (fun a b => before b a) x (y :: ys)).2
      rwa [happend] at hperm
    · rw [stretch_append]

theorem ordered_ne_nil (before : α → α → Bool) (x : α) (xs : List α) :
  (ordered before (x :: xs)).1 ≠ []
  := by
  cases xs with
  | nil => apply List.cons_ne_nil
  | cons y ys =>
    rw [ordered]
    split
    · obtain ⟨zs, hzs⟩ := exists_stretch_eq_cons (fun a b => before b a) x (y :: ys)
      rw [ne_eq, List.reverse_eq_nil_iff, hzs]
      apply List.cons_ne_nil
    · obtain ⟨zs, hzs⟩ := exists_stretch_eq_cons (fun a b => !before b a) x (y :: ys)
      rw [hzs]
      apply List.cons_ne_nil

/-- The first run of a list takes elements from it. -/
theorem perm_of_nextRun {before : α → α → Bool} {eager : Bool} {least : Nat} {xs rest : List α}
    {run : Run α} (h : nextRun before eager least xs = some (run, rest)) :
  (run.elements ++ rest).Perm xs
  := by
  simp only [nextRun] at h
  split at h
  · cases h
    apply perm_ordered
  · split at h
    · obtain ⟨ys, hsmall, h⟩ := Option.map_eq_some_iff.1 h
      cases h
      have hperm := (permutes_small before hsmall).append_right (xs.drop fewest)
      rwa [List.take_append_drop] at hperm
    · cases h
      rw [List.take_append_drop]

theorem length_rest_of_nextRun {before : α → α → Bool} {eager : Bool} {least : Nat} {x : α}
    {xs rest : List α} {run : Run α} (h : nextRun before eager least (x :: xs) = some (run, rest)) :
  rest.length ≤ xs.length
  := by
  simp only [nextRun] at h
  split at h
  · cases h
    have hlength := (perm_ordered before (x :: xs)).length_eq
    have hpos := List.length_pos_of_ne_nil (ordered_ne_nil before x xs)
    rw [List.length_append, List.length_cons] at hlength
    omega
  · split at h
    · obtain ⟨ys, hsmall, h⟩ := Option.map_eq_some_iff.1 h
      cases h
      rw [List.length_drop, List.length_cons, fewest]
      omega
    · cases h
      rw [List.length_drop, List.length_cons]
      omega

/-- The runs of a list have all its elements. -/
theorem perm_of_runs {before : α → α → Bool} {eager : Bool} {least n : Nat} {xs : List α}
    {rs : List (Run α)} (hlen : xs.length ≤ n) (h : runs before eager least n xs = some rs) :
  (rs.flatMap Run.elements).Perm xs
  := by
  induction n generalizing xs rs with
  | zero =>
    rw [List.length_eq_zero_iff.1 (Nat.le_zero.1 hlen)] at h ⊢
    cases h
    apply List.Perm.refl
  | succ n ih =>
    cases xs with
    | nil =>
      cases h
      apply List.Perm.refl
    | cons x xs =>
      rw [runs] at h
      obtain ⟨⟨run, rest⟩, hnext, h⟩ := Option.bind_eq_some_iff.1 h
      obtain ⟨others, hothers, h⟩ := Option.bind_eq_some_iff.1 h
      cases h
      have hrest := (length_rest_of_nextRun hnext).trans (Nat.le_of_succ_le_succ hlen)
      exact ((ih hrest hothers).append_left run.elements).trans (perm_of_nextRun hnext)

/-! ### Merging runs -/

theorem perm_merge (before : α → α → Bool) (xs ys : List α) :
  (merge before xs ys).Perm (xs ++ ys)
  := by
  rw [merge]
  split
  · apply List.merge_perm_append
  · have hperm := @List.merge_perm_append _ (fun y x => !before y x) ys.reverse xs.reverse
    rw [← List.reverse_append] at hperm
    exact (List.reverse_perm _).trans (hperm.trans (List.reverse_perm _))

/-- The elements of runs that wait to be joined. -/
def waiting (stack : List (Run α × Nat)) : List α :=
  stack.flatMap fun entry => entry.1.elements

@[simp]
theorem waiting_cons (run : Run α) (d : Nat) (stack : List (Run α × Nat)) :
  waiting ((run, d) :: stack) = run.elements ++ waiting stack
  := rfl

section

variable {before : α → α → Bool} {sortRun : List α → Option (List α)} (hsort : Permutes sortRun)
  {room : Nat}

include hsort

theorem perm_of_settle {run : Run α} {ys : List α} (h : run.settle sortRun = some ys) :
  ys.Perm run.elements
  := by
  rw [Run.settle] at h
  split at h
  · cases h
    apply List.Perm.refl
  · exact hsort h

theorem perm_of_join {left right run : Run α}
    (h : join before sortRun room left right = some run) :
  run.elements.Perm (left.elements ++ right.elements)
  := by
  rw [join] at h
  split at h
  · obtain ⟨xs, hxs, h⟩ := Option.bind_eq_some_iff.1 h
    obtain ⟨ys, hys, h⟩ := Option.bind_eq_some_iff.1 h
    cases h
    exact (perm_merge before xs ys).trans
      ((perm_of_settle hsort hxs).append (perm_of_settle hsort hys))
  · cases h
    apply List.Perm.refl

theorem perm_of_collapse {depth : Nat} {stack stack' : List (Run α × Nat)} {run run' : Run α}
    (h : collapse before sortRun room depth stack run = some (stack', run')) :
  (waiting stack' ++ run'.elements).Perm (waiting stack ++ run.elements)
  := by
  induction stack generalizing run with
  | nil =>
    cases h
    apply List.Perm.refl
  | cons entry stack ih =>
    obtain ⟨left, d⟩ := entry
    rw [collapse] at h
    split at h
    · obtain ⟨joined, hjoin, h⟩ := Option.bind_eq_some_iff.1 h
      apply (ih h).trans
      apply ((perm_of_join hsort hjoin).append_left (waiting stack)).trans
      rw [waiting_cons, List.append_assoc]
      apply List.perm_append_comm_assoc
    · cases h
      apply List.Perm.refl

omit hsort in
/-- Nothing is left beside the run that has been joined with all others. -/
theorem collapse_zero {stack stack' : List (Run α × Nat)} {run run' : Run α}
    (h : collapse before sortRun room 0 stack run = some (stack', run')) :
  stack' = []
  := by
  induction stack generalizing run with
  | nil =>
    cases h
    rfl
  | cons entry stack ih =>
    rw [collapse, if_pos (Nat.zero_le _)] at h
    obtain ⟨joined, hjoin, h⟩ := Option.bind_eq_some_iff.1 h
    exact ih h

theorem perm_of_joinAll {n stop : Nat} {stack : List (Run α × Nat)} {run run' : Run α}
    {others : List (Run α)}
    (h : joinAll before sortRun room n stack stop run others = some run') :
  run'.elements.Perm (waiting stack ++ (run.elements ++ others.flatMap Run.elements))
  := by
  induction others generalizing stack stop run with
  | nil =>
    obtain ⟨⟨stack', run'⟩, hcollapse, rfl⟩ := Option.map_eq_some_iff.1 h
    have hperm := perm_of_collapse hsort hcollapse
    rw [collapse_zero hcollapse] at hperm
    rwa [List.flatMap_nil, List.append_nil]
  | cons next others ih =>
    rw [joinAll] at h
    obtain ⟨⟨stack', joined⟩, hcollapse, h⟩ := Option.bind_eq_some_iff.1 h
    have hperm := (perm_of_collapse hsort hcollapse).append_right
      (next.elements ++ others.flatMap Run.elements)
    apply (ih h).trans
    rw [waiting_cons, List.flatMap_cons, ← List.append_assoc (waiting stack)]
    exact (List.perm_append_comm.append_right _).trans hperm

/-- Whatever the test, a sort by runs gives back the elements it was given. -/
theorem permutes_sortRuns (eager : Bool) :
  Permutes (sortRuns before sortRun room eager)
  := by
  intro xs ys h
  obtain ⟨rs, hruns, h⟩ := Option.bind_eq_some_iff.1 h
  have hperm := perm_of_runs le_rfl hruns
  cases rs with
  | nil =>
    cases h
    exact hperm
  | cons run others =>
    obtain ⟨joined, hjoin, h⟩ := Option.bind_eq_some_iff.1 h
    exact (perm_of_settle hsort h).trans ((perm_of_joinAll hsort hjoin).trans hperm)

end

/-! ### In the order of a key -/

/-- A run that is marked as sorted lies in order, and any other one can be put in order. -/
structure Run.Honest {κ : Type} [LinearOrder κ] (key : α → κ) (all : List α)
    (sortRun : List α → Option (List α)) (run : Run α) : Prop where
  inOrder : run.sorted = true → InOrder key run.elements
  orders : run.sorted = false → Orders key all sortRun

theorem Run.honest_sorted {κ : Type} [LinearOrder κ] {key : α → κ} {all xs : List α}
    {sortRun : List α → Option (List α)} (h : InOrder key xs) :
  Run.Honest key all sortRun ⟨xs, true⟩
  := ⟨fun _ => h, fun hsorted => absurd hsorted.symm Bool.false_ne_true⟩

theorem Run.honest_unsorted {κ : Type} [LinearOrder κ] {key : α → κ} {all xs : List α}
    {sortRun : List α → Option (List α)} (h : Orders key all sortRun) :
  Run.Honest key all sortRun ⟨xs, false⟩
  := ⟨fun hsorted => absurd hsorted Bool.false_ne_true, fun _ => h⟩

section

variable {κ : Type} [LinearOrder κ] {before : α → α → Bool} {key : α → κ} {all : List α}
  (h : Keyed before key all)

include h

/-- With a key, elements that lie in order already are found. -/
theorem inOrder_ordered {xs : List α} (hxs : xs ⊆ all) :
  InOrder key (ordered before xs).1
  := by
  match xs with
  | [] => exact List.Pairwise.nil
  | [x] => apply List.pairwise_singleton
  | x :: y :: ys =>
    rw [ordered]
    split
    · apply List.pairwise_reverse.2
      apply pairwise_stretch fun hab hbc => hbc.trans hab
      intro a ha b hb hba
      exact ((h b (hxs hb) a (hxs ha)).1 hba).le
    · apply pairwise_stretch fun hab hbc => hab.trans hbc
      intro a ha b hb hba
      exact (h.not_before (hxs hb) (hxs ha)).1 hba

/-- With a key, the first run is found. -/
theorem exists_nextRun {sortRun : List α → Option (List α)} {eager : Bool}
    (horders : eager = false → Orders key all sortRun) (least : Nat) {xs : List α}
    (hxs : xs ⊆ all) :
  ∃ run rest, nextRun before eager least xs = some (run, rest) ∧ run.Honest key all sortRun
  := by
  simp only [nextRun]
  split
  · exact ⟨_, _, rfl, Run.honest_sorted (inOrder_ordered h hxs)⟩
  · split
    · obtain ⟨ys, hsmall, hsorted⟩ :=
        orders_small h (List.Subset.trans (List.take_subset fewest xs) hxs)
      rw [hsmall]
      exact ⟨_, _, rfl, Run.honest_sorted hsorted⟩
    · next heager =>
      exact ⟨_, _, rfl, Run.honest_unsorted (horders (Bool.not_eq_true _ ▸ heager))⟩

/-- With a key, the runs are found. -/
theorem exists_runs {sortRun : List α → Option (List α)} {eager : Bool}
    (horders : eager = false → Orders key all sortRun) (least n : Nat) {xs : List α}
    (hxs : xs ⊆ all) :
  ∃ rs, runs before eager least n xs = some rs ∧ ∀ run ∈ rs, run.Honest key all sortRun
  := by
  induction n generalizing xs with
  | zero => exact ⟨[], by rw [runs]; simp, by simp⟩
  | succ n ih =>
    cases xs with
    | nil => exact ⟨[], rfl, by simp⟩
    | cons x xs =>
      obtain ⟨run, rest, hnext, hrun⟩ := exists_nextRun h horders least hxs
      have hrest : rest ⊆ all := fun y hy =>
        hxs ((perm_of_nextRun hnext).subset (List.mem_append_right _ hy))
      obtain ⟨others, hothers, hall⟩ := ih hrest
      rw [runs, hnext]
      simp only [Option.bind_eq_bind, Option.bind_some, hothers]
      exact ⟨_, rfl, List.forall_mem_cons.2 ⟨hrun, hall⟩⟩

/-- Two lists in order are merged in order. -/
theorem inOrder_merge {xs ys : List α} (hxs : xs ⊆ all) (hys : ys ⊆ all) (hx : InOrder key xs)
    (hy : InOrder key ys) :
  InOrder key (merge before xs ys)
  := by
  have hkey : ∀ x ∈ xs, ∀ y ∈ ys, (!before y x) = decide (key x ≤ key y) := by
    intro x hx y hy
    rw [Bool.eq_iff_iff, h.not_before (hys hy) (hxs hx), decide_eq_true_eq]
  rw [InOrder, ← List.pairwise_map (f := key) (R := (· ≤ ·))] at *
  rw [merge]
  split
  · rw [List.map_merge (s := fun a b => decide (a ≤ b)) hkey]
    exact hx.merge hy
  · have hkey' : ∀ y ∈ ys.reverse, ∀ x ∈ xs.reverse, (!before y x) = decide (key y ≥ key x) := by
      intro y hy x hx
      exact hkey x (List.mem_reverse.1 hx) y (List.mem_reverse.1 hy)
    rw [List.map_reverse, List.pairwise_reverse,
      List.map_merge (s := fun a b => decide (a ≥ b)) hkey', List.map_reverse, List.map_reverse]
    exact (List.pairwise_reverse.2 hy).merge (List.pairwise_reverse.2 hx)

variable {sortRun : List α → Option (List α)} (hsort : Permutes sortRun) (room : Nat)

omit h in
theorem exists_settle {run : Run α} (hall : run.elements ⊆ all)
    (hrun : run.Honest key all sortRun) :
  ∃ ys, run.settle sortRun = some ys ∧ InOrder key ys
  := by
  rw [Run.settle]
  split
  · next hsorted => exact ⟨_, rfl, hrun.inOrder hsorted⟩
  · next hsorted => exact hrun.orders (Bool.not_eq_true _ ▸ hsorted) hall

include hsort

theorem exists_join {left right : Run α} (hleft : left.elements ⊆ all)
    (hlhonest : left.Honest key all sortRun) (hright : right.elements ⊆ all)
    (hrhonest : right.Honest key all sortRun) :
  ∃ run, join before sortRun room left right = some run ∧ run.Honest key all sortRun
  := by
  rw [join]
  split
  · obtain ⟨xs, hxs, hx⟩ := exists_settle hleft hlhonest
    obtain ⟨ys, hys, hy⟩ := exists_settle hright hrhonest
    have hxall := List.Subset.trans (perm_of_settle hsort hxs).subset hleft
    have hyall := List.Subset.trans (perm_of_settle hsort hys).subset hright
    simp only [hxs, hys, Option.bind_eq_bind, Option.bind_some]
    exact ⟨_, rfl, Run.honest_sorted (inOrder_merge h hxall hyall hx hy)⟩
  · next hunsorted =>
    simp only [Bool.or_eq_true, not_or, Bool.not_eq_true] at hunsorted
    exact ⟨_, rfl, Run.honest_unsorted (hlhonest.orders hunsorted.1.2)⟩

theorem exists_collapse (depth : Nat) {stack : List (Run α × Nat)} {run : Run α}
    (hall : waiting stack ++ run.elements ⊆ all)
    (hstack : ∀ entry ∈ stack, entry.1.Honest key all sortRun)
    (hrun : run.Honest key all sortRun) :
  ∃ stack' run', collapse before sortRun room depth stack run = some (stack', run')
    ∧ (∀ entry ∈ stack', entry.1.Honest key all sortRun) ∧ run'.Honest key all sortRun
  := by
  induction stack generalizing run with
  | nil => exact ⟨_, _, rfl, hstack, hrun⟩
  | cons entry stack ih =>
    obtain ⟨left, d⟩ := entry
    rw [collapse]
    split
    · obtain ⟨hleft, hstack⟩ := List.forall_mem_cons.1 hstack
      rw [waiting_cons, List.append_assoc, List.append_subset, List.append_subset] at hall
      obtain ⟨hlall, hsall, hrall⟩ := hall
      obtain ⟨joined, hjoin, hhonest⟩ := exists_join h hsort room hlall hleft hrall hrun
      have hjall : joined.elements ⊆ all := List.Subset.trans (perm_of_join hsort hjoin).subset
        (List.append_subset.2 ⟨hlall, hrall⟩)
      simp only [hjoin, Option.bind_eq_bind, Option.bind_some]
      exact ih (List.append_subset.2 ⟨hsall, hjall⟩) hstack hhonest
    · exact ⟨_, _, rfl, hstack, hrun⟩

theorem exists_joinAll (n stop : Nat) {stack : List (Run α × Nat)} {run : Run α}
    {others : List (Run α)}
    (hall : waiting stack ++ (run.elements ++ others.flatMap Run.elements) ⊆ all)
    (hstack : ∀ entry ∈ stack, entry.1.Honest key all sortRun)
    (hruns : ∀ r ∈ run :: others, r.Honest key all sortRun) :
  ∃ run', joinAll before sortRun room n stack stop run others = some run'
    ∧ run'.Honest key all sortRun
  := by
  induction others generalizing stack stop run with
  | nil =>
    rw [List.flatMap_nil, List.append_nil] at hall
    obtain ⟨stack', run', hcollapse, -, hrun⟩ := exists_collapse h hsort room 0 hall hstack
      (hruns run List.mem_cons_self)
    rw [joinAll, hcollapse]
    exact ⟨_, rfl, hrun⟩
  | cons next others ih =>
    obtain ⟨hrun, hothers⟩ := List.forall_mem_cons.1 hruns
    rw [← List.append_assoc, List.append_subset] at hall
    obtain ⟨hfirst, hrest⟩ := hall
    obtain ⟨stack', joined, hcollapse, hstack', hjoined⟩ := exists_collapse h hsort room
      (depthAt n (stop - run.length) stop (stop + next.length)) hfirst hstack hrun
    have hperm := perm_of_collapse hsort hcollapse
    have hsubset := List.Subset.trans hperm.subset hfirst
    rw [joinAll]
    simp only [hcollapse, Option.bind_eq_bind, Option.bind_some]
    apply ih
    · rw [List.flatMap_cons] at hrest
      rw [waiting_cons, List.append_subset, List.append_subset]
      rw [List.append_subset] at hsubset
      exact ⟨⟨hsubset.2, hsubset.1⟩, hrest⟩
    · exact List.forall_mem_cons.2 ⟨hjoined, hstack'⟩
    · exact hothers

/-- With a key, a sort by runs orders its elements, where runs are put in order at once or can be
put in order later on. -/
theorem orders_sortRuns {eager : Bool} (horders : eager = false → Orders key all sortRun) :
  Orders key all (sortRuns before sortRun room eager)
  := by
  intro xs hxs
  obtain ⟨rs, hruns, hhonest⟩ := exists_runs h horders (leastRun xs.length) xs.length hxs
  have hall : rs.flatMap Run.elements ⊆ all :=
    List.Subset.trans (perm_of_runs le_rfl hruns).subset hxs
  simp only [sortRuns, hruns, Option.bind_eq_bind, Option.bind_some]
  cases rs with
  | nil => exact ⟨_, rfl, List.Pairwise.nil⟩
  | cons run others =>
    have hwaiting : waiting [] ++ (run.elements ++ others.flatMap Run.elements) ⊆ all := hall
    obtain ⟨joined, hjoin, hjoined⟩ := exists_joinAll h hsort room xs.length run.length
      hwaiting (fun entry hentry => absurd hentry List.not_mem_nil) hhonest
    have hsubset := List.Subset.trans (perm_of_joinAll hsort hjoin).subset hwaiting
    simp only [hjoin, Option.bind_some]
    exact exists_settle hsubset hjoined

end

end Dice.Sort
