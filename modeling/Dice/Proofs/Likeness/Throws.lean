import Dice.Choice
import Dice.Scope
import Dice.Throw
import Mathlib.Data.List.Forall2

/-!
# Likenesses

A likeness is a relation between values which neither throws nor choices can tell apart. From faces
that are alike the same roller throws dice that are alike, in runs of the same length, and it is
left in the same state; choices from lists that are alike admit elements that are alike.
-/

namespace Dice

/-- When two values, two operands that stand for faces, and two scopes are alike. -/
structure Likeness where
  value : Value → Value → Prop
  faces : Faces → Faces → Prop
  domain : Value → Value → Prop
  scope : Scope → Scope → Prop
  number (x : Number) : value (.number x) (.number x)
  list {vs ws : List Value} : List.Forall₂ value vs ws → value (.list vs) (.list ws)
  elements {v w : Value} : value v w → List.Forall₂ value v.elements w.elements
  total {v w : Value} : value v w → v.total = w.total
  redrawFaces {v w : Value} : value v w → faces v.redrawFaces w.redrawFaces
  domain_of_value {v w : Value} : value v w → domain v w
  ofValue? {v w : Value} : domain v w → Option.Rel faces (Faces.ofValue? v) (Faces.ofValue? w)
  count {f g : Faces} : faces f g → f.count = g.count
  /-- Dice that land on the same face are alike. -/
  landed {f g : Faces} : faces f g → ∀ (i : Fin f.count) (j : Fin g.count), i.val = j.val →
    value (Die.landed f i).toValue (Die.landed g j).toValue
  get {s t : Scope} : scope s t → ∀ name, Option.Rel value (s.get? name) (t.get? name)
  set {s t : Scope} {v w : Value} : scope s t → value v w →
    ∀ name, scope (s.set name v) (t.set name w)
  bind {s t : Scope} {v w : Value} : scope s t → value v w →
    ∀ name, scope (s.bind name v) (t.bind name w)
  push {s t : Scope} : scope s t → scope s.push t.push
  pop {s t : Scope} : scope s t → scope s.pop t.pop

namespace Likeness

variable (L : Likeness)

/-- Dice are alike as values. -/
def dice (d e : Die) : Prop :=
  L.value d.toValue e.toValue

variable {L}

theorem outcome {d e : Die} (h : L.dice d e) :
  d.outcome = e.outcome
  := L.total h

theorem totals {vs ws : List Value} (h : List.Forall₂ L.value vs ws) :
  vs.map Value.total = ws.map Value.total
  := by
  induction h with
  | nil => rfl
  | cons hv h ih => rw [List.map_cons, List.map_cons, L.total hv, ih]

theorem values_of_dice {ds es : List Die} (h : List.Forall₂ L.dice ds es) :
  List.Forall₂ L.value (ds.map Die.toValue) (es.map Die.toValue)
  := List.forall₂_map_left_iff.2 (List.forall₂_map_right_iff.2 h)

/-! ### Runs of throws -/

section

variable {ρ : Type} [Roller ρ] {f g : Faces}

/-- A roller hands out the same index of as many faces. -/
theorem next_eq {n m : Nat} (h : n = m) (hn : 0 < n) (hm : 0 < m) (r : ρ) :
  (Roller.next n hn r).1.val = (Roller.next m hm r).1.val
    ∧ (Roller.next n hn r).2 = (Roller.next m hm r).2
  := by
  subst h
  exact ⟨rfl, rfl⟩

theorem draw (h : L.faces f g) (r : ρ) :
  L.dice (f.draw r).1 (g.draw r).1 ∧ (f.draw r).2 = (g.draw r).2
  := by
  obtain ⟨hindex, hroller⟩ := next_eq (L.count h) f.count_pos g.count_pos r
  exact ⟨L.landed h _ _ hindex, hroller⟩

theorem drawMany (h : L.faces f g) (n : Nat) (r : ρ) :
  List.Forall₂ L.dice (f.drawMany n r).1 (g.drawMany n r).1
    ∧ (f.drawMany n r).2 = (g.drawMany n r).2
  := by
  induction n generalizing r with
  | zero => exact ⟨.nil, rfl⟩
  | succ n ih =>
    obtain ⟨hdie, hroller⟩ := draw h r
    obtain ⟨hdice, hrest⟩ := ih (f.draw r).2
    simp only [Faces.drawMany, ← hroller]
    exact ⟨hdice.cons hdie, hrest⟩

theorem drawUntil (h : L.faces f g) (test : Number → Bool) (n : Nat) (r : ρ) :
  List.Forall₂ L.dice (f.drawUntil test n r).1 (g.drawUntil test n r).1
    ∧ Option.Rel L.dice (f.drawUntil test n r).2.1 (g.drawUntil test n r).2.1
    ∧ (f.drawUntil test n r).2.2 = (g.drawUntil test n r).2.2
  := by
  induction n generalizing r with
  | zero => exact ⟨.nil, .none, rfl⟩
  | succ n ih =>
    obtain ⟨hdie, hroller⟩ := draw h r
    obtain ⟨hmisses, hhit, hrest⟩ := ih (f.draw r).2
    simp only [Faces.drawUntil, ← hroller, ← outcome hdie]
    by_cases hit : test (f.draw r).1.outcome
    · simp only [hit, if_true]
      exact ⟨.nil, .some hdie, trivial⟩
    · simp only [hit, Bool.false_eq_true, if_false]
      exact ⟨hmisses.cons hdie, hhit, hrest⟩

theorem drawWhile (h : L.faces f g) (test : Number → Bool) (n : Nat) (r : ρ) :
  List.Forall₂ L.dice (f.drawWhile test n r).1 (g.drawWhile test n r).1
    ∧ (f.drawWhile test n r).2 = (g.drawWhile test n r).2
  := by
  induction n generalizing r with
  | zero => exact ⟨.nil, rfl⟩
  | succ n ih =>
    obtain ⟨hdie, hroller⟩ := draw h r
    obtain ⟨hdice, hrest⟩ := ih (f.draw r).2
    simp only [Faces.drawWhile, ← hroller, ← outcome hdie]
    by_cases again : test (f.draw r).1.outcome
    · simp only [again, if_true]
      exact ⟨hdice.cons hdie, hrest⟩
    · simp only [again, Bool.false_eq_true, if_false]
      exact ⟨List.Forall₂.nil.cons hdie, trivial⟩

/-- Redraws of elements that are alike throw as many dice. -/
theorem redrawAll {vs ws : List Value} (h : List.Forall₂ L.value vs ws) (how : Redraw)
    (test : Number → Bool) (n : Nat) (r : ρ) :
  List.Forall₂ L.value (redrawAll how test vs n r).1 (redrawAll how test ws n r).1
    ∧ (redrawAll how test vs n r).2 = (redrawAll how test ws n r).2
  := by
  induction h generalizing n r with
  | nil => exact ⟨.nil, rfl⟩
  | @cons v w vs ws hv h ih =>
    by_cases hit : test v.total
    · have hdrawn : List.Forall₂ L.dice (v.redrawn how test n r).1 (w.redrawn how test n r).1
          ∧ (v.redrawn how test n r).2 = (w.redrawn how test n r).2 :=
        drawWhile (L.redrawFaces hv) _ n r
      obtain ⟨hdice, hroller⟩ := hdrawn
      have hkept : List.Forall₂ L.value (if how.keeps then [v] else [])
          (if how.keeps then [w] else []) := by
        split
        · exact List.Forall₂.nil.cons hv
        · exact .nil
      obtain ⟨hrest, heq⟩ := ih (n - (v.redrawn how test n r).1.length) (v.redrawn how test n r).2
      simp only [Dice.redrawAll, ← L.total hv, hit, if_true, ← hroller, ← hdice.length_eq, ← heq]
      exact ⟨List.rel_append (List.rel_append hkept (values_of_dice hdice)) hrest, trivial⟩
    · obtain ⟨hrest, heq⟩ := ih n r
      simp only [Dice.redrawAll, ← L.total hv, hit, Bool.false_eq_true, if_false, ← heq]
      exact ⟨hrest.cons hv, trivial⟩

end

/-! ### Choices -/

section

variable {vs ws : List Value} (h : List.Forall₂ L.value vs ws)

include h

theorem split (test : Number → Bool) :
  List.Forall₂ L.value (Choice.split test vs).1 (Choice.split test ws).1
    ∧ List.Forall₂ L.value (Choice.split test vs).2 (Choice.split test ws).2
  := by
  simp only [Choice.split, List.partition_eq_filter_filter]
  constructor
  · apply List.rel_filter _ h
    intro v w hv
    simp only [L.total hv]
  · apply List.rel_filter _ h
    intro v w hv
    simp only [Function.comp_apply, L.total hv]

theorem downTo (rank : Rank) (boundary : Option Number) :
  List.Forall₂ L.value (Choice.downTo rank vs boundary).1 (Choice.downTo rank ws boundary).1
    ∧ List.Forall₂ L.value (Choice.downTo rank vs boundary).2 (Choice.downTo rank ws boundary).2
  := by
  cases boundary with
  | none => exact ⟨.nil, h⟩
  | some b => apply split h

theorem divide? (rank : Rank) (count : Int64) :
  Option.Rel (fun x y => List.Forall₂ L.value x.1 y.1 ∧ List.Forall₂ L.value x.2 y.2)
    (Choice.divide? rank count vs) (Choice.divide? rank count ws)
  := by
  simp only [Choice.divide?, ← h.length_eq, ← totals h]
  by_cases hzero : count.toInt.toNat = 0
  · simp only [if_pos hzero]
    exact .some ⟨.nil, h⟩
  · by_cases hall : vs.length ≤ count.toInt.toNat
    · simp only [if_neg hzero, if_pos hall]
      exact .some ⟨h, .nil⟩
    · simp only [if_neg hzero, if_neg hall]
      cases Choice.sort? rank (vs.map Value.total) with
      | none => exact .none
      | some sorted => exact .some (downTo h rank _)

end

variable (L) in
/-- Parted results are alike in what is returned and in what is set aside. -/
structure Parts (p q : Parted) : Prop where
  value : List.Forall₂ L.value p.value q.value
  side : L.value p.side q.side

variable {vs ws : List Value} (h : List.Forall₂ L.value vs ws)

include h

theorem byCount? (action : Action) (rank : Rank) (count : Int64) :
  Option.Rel L.Parts (Choice.byCount? action rank count vs)
    (Choice.byCount? action rank count ws)
  := by
  have hdivide := divide? h rank count
  rw [Choice.byCount?, Choice.byCount?]
  generalize Choice.divide? rank count vs = x at hdivide ⊢
  generalize Choice.divide? rank count ws = y at hdivide ⊢
  cases hdivide with
  | none => exact .none
  | some hparts =>
    obtain ⟨hadmitted, hrest⟩ := hparts
    apply Option.Rel.some
    cases action with
    | keep => exact ⟨hadmitted, L.list hrest⟩
    | drop => exact ⟨hrest, L.list hadmitted⟩

theorem byComparison (cmp : Comparator) (threshold : Number) :
  L.Parts (Choice.byComparison cmp threshold vs) (Choice.byComparison cmp threshold ws)
  := by
  obtain ⟨hkept, hdropped⟩ := split h (cmp.holds · threshold)
  exact ⟨hkept, L.list hdropped⟩

end Likeness

end Dice
