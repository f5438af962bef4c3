import Dice.Proofs.Code.RoundTrip
import Dice.Proofs.Decimal.Printing
import Dice.Value.Outline

/-!
# Outlines

The outline of a list or a die is made up of those of its elements or faces, with every line further
in. How far in a line stands tells where the outline before it ends: at the end of the text, or
before a line that stands no further in than the outline began. So values of integers with the same
outline are the same.
-/

namespace Dice

/-! ### Lines further in -/

/-- A text behind the beginning of a line, with all lines after this one further in. -/
def continued (n : Nat) (cs : List Char) : List Char :=
  cs.flatMap fun c => if c = '\n' then '\n' :: List.replicate n ' ' else [c]

/-- A text with all lines further in. -/
def indented (n : Nat) (cs : List Char) : List Char :=
  List.replicate n ' ' ++ continued n cs

/-- A text with all lines further in by some number of spaces. -/
def indent (n : Nat) (s : String) : String :=
  .ofList (indented n s.toList)

theorem continued_append (n : Nat) (cs ds : List Char) :
  continued n (cs ++ ds) = continued n cs ++ continued n ds
  := List.flatMap_append

/-- At the end of a line, the next one begins further in. -/
theorem continued_break (n : Nat) (cs : List Char) :
  continued n ('\n' :: cs) = '\n' :: indented n cs
  := rfl

/-- A part of a line stays as it is. -/
theorem continued_of_notMem {n : Nat} {cs : List Char} (h : '\n' ∉ cs) :
  continued n cs = cs
  := by
  induction cs with
  | nil => rfl
  | cons c cs ih =>
    obtain ⟨hc, hcs⟩ := not_or.1 (mt List.mem_cons.2 h)
    rw [continued, List.flatMap_cons, if_neg (Ne.symm hc)]
    exact congrArg (c :: ·) (ih hcs)

theorem margin_add (depth further : Nat) :
  margin (depth + further) = margin depth ++ margin further
  := by
  rw [margin, margin, margin, Nat.mul_add, List.replicate_append_replicate]

theorem newline_notMem_margin (depth : Nat) :
  '\n' ∉ margin depth
  := by
  intro h
  cases List.eq_of_mem_replicate h

/-- The margin of a line moves with it. -/
theorem indented_margin (further depth : Nat) (cs : List Char) :
  indented (2 * further) (margin depth ++ cs)
    = margin (further + depth) ++ continued (2 * further) cs
  := by
  rw [indented, continued_append, continued_of_notMem (newline_notMem_margin depth), margin_add,
    List.append_assoc]
  rfl

/-! ### Numbers -/

/-- The text of a number is a part of a line. -/
theorem Number.newline_notMem_chars (x : Number) :
  '\n' ∉ x.chars
  := by
  by_cases hx : x.isFinite
  · obtain ⟨kind, cs, hcs, hchars⟩ := chars_of_isFinite hx
    have hnumeral : '\n' ∉ cs := by
      intro h
      rcases hcs.dotted.isDigit_or _ h with h | h <;> cases h
    rcases hchars with hchars | hchars
    · rwa [hchars]
    · rw [hchars, List.mem_cons]
      rintro (h | h)
      · cases h
      · exact hnumeral h
  · rcases chars_of_not_isFinite (Bool.eq_false_iff.2 hx) with hchars | hchars | hchars <;>
      · rw [hchars]
        decide

/-! ### The form of outlines -/

namespace Value

theorem outlineAt_number (depth : Nat) (x : Number) :
  (number x).outlineAt depth = margin depth ++ ("Number: ".toList ++ x.chars)
  := by
  rw [outlineAt, List.append_assoc]

theorem outlineAt_list (depth : Nat) (vs : List Value) :
  (list vs).outlineAt depth = margin depth ++ ("List:".toList ++ outlineRest (depth + 1) vs)
  := by
  rw [outlineAt, List.append_assoc]

/-- The outline of a die is three lines and the outline of its faces. -/
theorem outlineAt_die (depth : Nat) (x : Number) (f : Faces) :
  (die x f).outlineAt depth
    = margin depth ++ ("Die:".toList ++ '\n' :: (margin depth
      ++ ("  Value: ".toList ++ (x.chars ++ '\n' :: (margin depth
        ++ ("  Sides:".toList ++ '\n' :: f.outlineAt (depth + 2)))))))
  := by
  rw [outlineAt]
  simp only [List.append_assoc]
  rfl

end Value

/-- The outline of some faces is that of the value they stand for. -/
theorem Faces.outlineAt_toValue (depth : Nat) (f : Faces) :
  f.outlineAt depth = f.toValue.outlineAt depth
  := by
  cases f with
  | upTo n pos => rfl
  | listed v vs =>
    rw [outlineAt, toValue, Value.outlineAt, outlineRest, List.append_assoc]

/-- What holds of numbers, of a list if it holds of its elements, and of a die if it holds of the
value that its faces stand for, holds of all values. -/
theorem Value.induction_toValue
    {motive : Value → Prop} (number : ∀ x, motive (.number x))
    (list : ∀ vs, (∀ v ∈ vs, motive v) → motive (.list vs))
    (die : ∀ x (f : Faces), motive f.toValue → motive (.die x f)) (v : Value) :
  motive v
  := by
  have cons : ∀ v vs, motive v → (∀ w ∈ vs, motive w) → ∀ w ∈ v :: vs, motive w :=
    fun v vs hv hvs => List.forall_mem_cons.2 ⟨hv, hvs⟩
  exact @Value.rec motive (fun f => motive f.toValue) (fun vs => ∀ w ∈ vs, motive w) number list die
    (fun n _ => number _) (fun v vs hv hvs => list (v :: vs) (cons v vs hv hvs))
    (List.forall_mem_nil _) cons v

/-! ### Outlines further in -/

theorem outlineRest_add
    {further depth : Nat} {vs : List Value}
    (h : ∀ v ∈ vs, v.outlineAt (further + depth) = indented (2 * further) (v.outlineAt depth)) :
  outlineRest (further + depth) vs = continued (2 * further) (outlineRest depth vs)
  := by
  induction vs with
  | nil => rfl
  | cons v vs ih =>
    obtain ⟨hv, hvs⟩ := List.forall_mem_cons.1 h
    rw [outlineRest, outlineRest, List.cons_append, List.cons_append, continued_break, indented,
      continued_append, hv, ih hvs, indented, List.append_assoc]

/-- The outline of a value that stands further in is its outline with all lines further in. -/
theorem Value.outlineAt_add (further depth : Nat) (v : Value) :
  v.outlineAt (further + depth) = indented (2 * further) (v.outlineAt depth)
  := by
  induction v using induction_toValue generalizing depth with
  | number x =>
    rw [outlineAt_number, outlineAt_number, indented_margin, continued_append,
      continued_of_notMem (by decide), continued_of_notMem x.newline_notMem_chars]
  | list vs ih =>
    rw [outlineAt_list, outlineAt_list, indented_margin, continued_append,
      continued_of_notMem (by decide), Nat.add_assoc, outlineRest_add fun v hv => ih v hv _]
  | die x f ih =>
    rw [outlineAt_die, outlineAt_die, indented_margin, continued_append,
      continued_of_notMem (by decide), continued_break, indented_margin, continued_append,
      continued_of_notMem (by decide), continued_append,
      continued_of_notMem x.newline_notMem_chars, continued_break, indented_margin,
      continued_append, continued_of_notMem (by decide), continued_break, Nat.add_assoc,
      f.outlineAt_toValue, f.outlineAt_toValue, ih]

/-! ### Where an outline ends -/

mutual

/-- Whether every number in a value is an integer, on faces too, and every count of sides is one. -/
def Value.isWhole : Value → Bool
  | .number x => x.isInt
  | .list vs => allWhole vs
  | .die x f => x.isInt && f.isWhole

/-- Whether some faces are whole in the same way. -/
def Faces.isWhole : Faces → Bool
  | .upTo n _ => n ≤ Int64.maxValue.toInt
  | .listed v vs => v.isWhole && allWhole vs

/-- Whether all of some values are whole. -/
def allWhole : List Value → Bool
  | [] => true
  | v :: vs => v.isWhole && allWhole vs

end

theorem Faces.isWhole_toValue {f : Faces} (h : f.isWhole) :
  f.toValue.isWhole
  := by
  cases f with
  | upTo n pos => rfl
  | listed v vs => exact h

/-- Whole faces are told by the value they stand for. -/
theorem Faces.eq_of_toValue {f g : Faces} (hf : f.isWhole) (hg : g.isWhole)
    (h : f.toValue = g.toValue) :
  f = g
  := by
  have hstands : ∀ {f : Faces}, f.isWhole → ofValue? f.toValue = some f := by
    intro f hf
    cases f with
    | upTo n pos => exact ofValue?_upTo pos (of_decide_eq_true hf)
    | listed v vs => rfl
  have heq := hstands hf
  rw [h, hstands hg] at heq
  exact (Option.some.inj heq).symm

/-- An integer is told by its text. -/
theorem Number.eq_of_chars {x y : Number} (hx : x.isInt) (hy : y.isInt) (h : x.chars = y.chars) :
  x = y
  := by
  cases x with
  | float x => cases hx
  | int n =>
    cases y with
    | float y => cases hy
    | int m =>
      have hreread : (int n).reread? = (int m).reread? := by
        rw [reread?, reread?, h]
        rfl
      rw [reread?_int, reread?_int] at hreread
      exact Option.some.inj hreread

/-- The rest of a text behind an outline at some depth: it is empty, or begins with a line that
stands no further in. -/
def Ends (depth : Nat) : List Char → Prop
  | [] => True
  | c :: rest => c = '\n' ∧ (rest.takeWhile (· == ' ')).length ≤ 2 * depth

theorem Ends.nil (depth : Nat) :
  Ends depth []
  := trivial

theorem Ends.mono {d e : Nat} {rest : List Char} (h : Ends d rest) (hle : d ≤ e) :
  Ends e rest
  := by
  cases rest with
  | nil => trivial
  | cons c rest => exact ⟨h.1, h.2.trans (Nat.mul_le_mul_left 2 hle)⟩

theorem Ends.head {depth : Nat} {rest : List Char} (h : Ends depth rest) :
  ∀ c ∈ rest.head?, c = '\n'
  := by
  intro c hc
  cases rest with
  | nil => cases hc
  | cons d rest =>
    cases hc
    exact h.1

/-- Two texts that begin with lines are the same only if these lines and the rests are. -/
theorem eq_of_lines
    {xs ys r s : List Char} (hxs : '\n' ∉ xs) (hys : '\n' ∉ ys) (hr : ∀ c ∈ r.head?, c = '\n')
    (hs : ∀ c ∈ s.head?, c = '\n') (h : xs ++ r = ys ++ s) :
  xs = ys ∧ r = s
  := by
  have hline : ∀ {zs t : List Char}, '\n' ∉ zs → (∀ c ∈ t.head?, c = '\n') →
      (zs ++ t).takeWhile (· != '\n') = zs := by
    intro zs t hzs ht
    have hin : ∀ c ∈ zs, (c != '\n') = true := by
      intro c hc
      rw [bne_iff_ne]
      rintro rfl
      exact hzs hc
    rw [List.takeWhile_append_of_pos hin]
    cases t with
    | nil => exact List.append_nil zs
    | cons c t =>
      obtain rfl := ht c rfl
      exact List.append_nil zs
  have hlines : xs = ys := by
    rw [← hline hxs hr, h, hline hys hs]
  subst hlines
  exact ⟨rfl, List.append_cancel_left h⟩

/-- A line of an outline begins as far in as its depth. -/
theorem spaces_outlineAt (depth : Nat) (v : Value) (rest : List Char) :
  ((v.outlineAt depth ++ rest).takeWhile (· == ' ')).length = 2 * depth
  := by
  have hfirst : ∃ c cs, v.outlineAt depth = margin depth ++ c :: cs ∧ c ≠ ' ' := by
    cases v with
    | number x => exact ⟨'N', _, Value.outlineAt_number depth x, by decide⟩
    | list vs => exact ⟨'L', _, Value.outlineAt_list depth vs, by decide⟩
    | die x f => exact ⟨'D', _, Value.outlineAt_die depth x f, by decide⟩
  obtain ⟨c, cs, hline, hc⟩ := hfirst
  have hmargin : ∀ d ∈ margin depth, (d == ' ') = true := by
    intro d hd
    rw [List.eq_of_mem_replicate hd]
    rfl
  rw [hline, List.append_assoc, List.takeWhile_append_of_pos hmargin, List.cons_append,
    List.takeWhile_cons_of_neg (by simpa using hc), List.append_nil, margin, List.length_replicate]

theorem outlineRest_cons_append (depth : Nat) (v : Value) (vs : List Value) (rest : List Char) :
  outlineRest depth (v :: vs) ++ rest
    = '\n' :: (v.outlineAt depth ++ (outlineRest depth vs ++ rest))
  := by
  rw [outlineRest, List.cons_append, List.cons_append, List.append_assoc]

/-- In a list, what is behind an element ends its outline. -/
theorem ends_outlineRest {depth : Nat} {rest : List Char} (h : Ends depth rest) (vs : List Value) :
  Ends (depth + 1) (outlineRest (depth + 1) vs ++ rest)
  := by
  cases vs with
  | nil => exact h.mono (Nat.le_succ depth)
  | cons v vs =>
    rw [outlineRest_cons_append]
    exact ⟨rfl, (spaces_outlineAt (depth + 1) v _).le⟩

/-- What ends the outline of a list is no further element. -/
theorem not_ends_outlineRest (depth : Nat) (v : Value) (rest : List Char) :
  ¬ Ends depth ('\n' :: (v.outlineAt (depth + 1) ++ rest))
  := by
  rintro ⟨-, hspaces⟩
  rw [spaces_outlineAt] at hspaces
  omega

/-! ### Values told by their outlines -/

/-- Before what ends it, the outline of a value tells it from other whole values. -/
def Value.Told (v : Value) : Prop :=
  v.isWhole → ∀ {w : Value} {depth : Nat} {r s : List Char}, w.isWhole → Ends depth r →
    Ends depth s → v.outlineAt depth ++ r = w.outlineAt depth ++ s → v = w ∧ r = s

namespace Value

theorem told_number (x : Number) :
  (number x).Told
  := by
  intro hx w depth r s hw hr hs h
  cases w with
  | number y =>
    simp only [outlineAt_number, List.append_assoc, List.append_cancel_left_eq] at h
    obtain ⟨hchars, rfl⟩ :=
      eq_of_lines x.newline_notMem_chars y.newline_notMem_chars hr.head hs.head h
    rw [Number.eq_of_chars hx hw hchars]
    exact ⟨rfl, rfl⟩
  | list ws =>
    simp only [outlineAt_number, outlineAt_list, List.append_assoc,
      List.append_cancel_left_eq] at h
    cases h
  | die y g =>
    simp only [outlineAt_number, outlineAt_die, List.append_assoc,
      List.append_cancel_left_eq] at h
    cases h

/-- Before what ends it, the outline of a list tells its elements. -/
theorem outlineRest_told
    {vs ws : List Value} {depth : Nat} {r s : List Char} (h : ∀ v ∈ vs, v.Told)
    (hvs : allWhole vs) (hws : allWhole ws) (hr : Ends depth r) (hs : Ends depth s)
    (heq : outlineRest (depth + 1) vs ++ r = outlineRest (depth + 1) ws ++ s) :
  vs = ws ∧ r = s
  := by
  induction vs generalizing ws with
  | nil =>
    cases ws with
    | nil => exact ⟨rfl, heq⟩
    | cons w ws =>
      rw [outlineRest_cons_append, outlineRest, List.nil_append] at heq
      rw [heq] at hr
      cases not_ends_outlineRest depth w _ hr
  | cons v vs ih =>
    rw [outlineRest_cons_append] at heq
    cases ws with
    | nil =>
      rw [outlineRest, List.nil_append] at heq
      rw [← heq] at hs
      cases not_ends_outlineRest depth v _ hs
    | cons w ws =>
      rw [outlineRest_cons_append] at heq
      obtain ⟨hv, hvs'⟩ := Bool.and_eq_true_iff.1 hvs
      obtain ⟨hw, hws'⟩ := Bool.and_eq_true_iff.1 hws
      obtain ⟨htold, hrest⟩ := List.forall_mem_cons.1 h
      obtain ⟨rfl, hbehind⟩ :=
        htold hv hw (ends_outlineRest hr vs) (ends_outlineRest hs ws) (List.cons.inj heq).2
      obtain ⟨rfl, rfl⟩ := ih hrest hvs' hws' hbehind
      exact ⟨rfl, rfl⟩

theorem told_list {vs : List Value} (ih : ∀ v ∈ vs, v.Told) :
  (list vs).Told
  := by
  intro hvs w depth r s hw hr hs h
  cases w with
  | list ws =>
    simp only [outlineAt_list, List.append_assoc, List.append_cancel_left_eq] at h
    obtain ⟨rfl, rfl⟩ := outlineRest_told ih hvs hw hr hs h
    exact ⟨rfl, rfl⟩
  | number y =>
    simp only [outlineAt_number, outlineAt_list, List.append_assoc,
      List.append_cancel_left_eq] at h
    cases h
  | die y g =>
    simp only [outlineAt_list, outlineAt_die, List.append_assoc, List.append_cancel_left_eq] at h
    cases h

theorem told_die (x : Number) {f : Faces} (ih : f.toValue.Told) :
  (die x f).Told
  := by
  intro hv w depth r s hw hr hs h
  cases w with
  | die y g =>
    obtain ⟨hx, hf⟩ := Bool.and_eq_true_iff.1 hv
    obtain ⟨hy, hg⟩ := Bool.and_eq_true_iff.1 hw
    simp only [outlineAt_die, List.append_assoc, List.cons_append, List.append_cancel_left_eq,
      List.cons.injEq, true_and] at h
    have hbreak : ∀ cs : List Char, ∀ c ∈ ('\n' :: cs).head?, c = '\n' := by
      intro cs c hc
      cases hc
      rfl
    obtain ⟨hchars, hrest⟩ :=
      eq_of_lines x.newline_notMem_chars y.newline_notMem_chars (hbreak _) (hbreak _) h
    simp only [List.append_cancel_left_eq, List.cons.injEq, true_and,
      Faces.outlineAt_toValue] at hrest
    obtain ⟨hfaces, rfl⟩ := ih (Faces.isWhole_toValue hf) (Faces.isWhole_toValue hg)
      (hr.mono (Nat.le_add_right depth 2)) (hs.mono (Nat.le_add_right depth 2)) hrest
    rw [Number.eq_of_chars hx hy hchars, Faces.eq_of_toValue hf hg hfaces]
    exact ⟨rfl, rfl⟩
  | number y =>
    simp only [outlineAt_number, outlineAt_die, List.append_assoc,
      List.append_cancel_left_eq] at h
    cases h
  | list ws =>
    simp only [outlineAt_list, outlineAt_die, List.append_assoc, List.append_cancel_left_eq] at h
    cases h

theorem told (v : Value) :
  v.Told
  := by
  induction v using induction_toValue with
  | number x => apply told_number
  | list vs ih => apply told_list ih
  | die x f ih => apply told_die x ih

/-! ### Outlines as texts -/

/-- A value at some depth has its outline with all lines two spaces further in for each level. -/
theorem outlineAt_eq (depth : Nat) (v : Value) :
  v.outlineAt depth = (indent (2 * depth) v.outline).toList
  := by
  rw [indent, outline, String.toList_ofList, String.toList_ofList, ← outlineAt_add, Nat.add_zero]

theorem outlineRest_eq (depth : Nat) (vs : List Value) :
  outlineRest depth vs = vs.flatMap fun v => '\n' :: (indent (2 * depth) v.outline).toList
  := by
  induction vs with
  | nil => rfl
  | cons v vs ih =>
    rw [outlineRest, List.flatMap_cons, ih, outlineAt_eq]

/-- The outline of a list is a line and, each on new lines that stand two spaces further in, the
outlines of its elements. That of a die is a line, one with its outcome, one before the faces, and
the outline of the value that they stand for, four spaces further in. At any depth, an outline is
the same but for two spaces at each level. Values with the same outline are the same, if their
numbers and their counts of sides are integers. -/
theorem outline_compositional :
  (∀ vs : List Value, (list vs).outline
      = "List:" ++ String.join (vs.map fun v => "\n" ++ indent 2 v.outline))
    ∧ (∀ (x : Number) (f : Faces), (die x f).outline
      = "Die:\n  Value: " ++ x.text ++ "\n  Sides:\n" ++ indent 4 f.toValue.outline)
    ∧ (∀ (depth : Nat) (v : Value), v.outlineAt depth = (indent (2 * depth) v.outline).toList)
    ∧ ∀ v w : Value, v.isWhole → w.isWhole → v.outline = w.outline → v = w
  := by
  refine ⟨?_, ?_, outlineAt_eq, ?_⟩
  · intro vs
    apply String.toList_injective
    rw [outline, String.toList_ofList, outlineAt_list, outlineRest_eq, String.toList_append,
      String.toList_join, List.flatMap_map]
    simp only [String.toList_append]
    rfl
  · intro x f
    apply String.toList_injective
    rw [outline, String.toList_ofList, outlineAt_die, f.outlineAt_toValue, outlineAt_eq]
    simp only [String.toList_append, Number.text, String.toList_ofList, List.append_assoc]
    rfl
  · intro v w hv hw h
    have htexts : v.outlineAt 0 ++ [] = w.outlineAt 0 ++ [] := by
      rw [List.append_nil, List.append_nil]
      exact String.ofList_injective h
    exact (told v hv hw (.nil 0) (.nil 0) htexts).1

/-- A number and a die. -/
def listing : Value :=
  .list [.number (.int (-1)), .die (.int 3) (.upTo 8 (by decide))]

/-- The outline of a list, and of the die in it, which the list is the only value of integers to
have. -/
theorem outline_compositional_listing :
  listing.outline
      = "List:\n  Number: -1\n  Die:\n    Value: 3\n    Sides:\n      Number: 8"
    ∧ (die (.int 3) (.upTo 8 (by decide))).outline
      = "Die:\n  Value: 3\n  Sides:\n" ++ indent 4 (number (.int 8)).outline
    ∧ listing.isWhole ∧ ∀ w : Value, w.isWhole → w.outline = listing.outline → w = listing
  := by
  obtain ⟨-, hdie, -, htold⟩ := outline_compositional
  have hwhole : listing.isWhole := by decide
  exact ⟨by rfl, hdie _ _, hwhole, fun w hw h => htold w listing hw hwhole h⟩

end Value

end Dice
