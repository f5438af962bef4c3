import Dice.Proofs.Likeness.Programs
import Dice.Proofs.Likeness.Scopes

/-!
# Faces spelled out

Faces that are counted can be spelled out as the list of the integers up to the count. Values that
are the same once all faces in them are spelled out have the same display and the same total, and
land on the same outcomes. They are a likeness, in which a count is alike the list of the integers up
to it as an operand that stands for faces.
-/

namespace Dice

/-- The integers from one up to a count, as values. -/
def integers (n : Nat) : List Value :=
  (List.range' 1 n).map fun k => .number (.int (.ofNat k))

mutual

/-- The value with all faces in it spelled out. -/
def Value.spelled : Value → Value
  | .number x => .number x
  | .list vs => .list (spelledAll vs)
  | .die x f => .die x f.spelled

/-- The faces as a list. -/
def Faces.spelled : Faces → Faces
  | .upTo n _ =>
    .listed (.number (.int 1)) ((List.range' 2 (n - 1)).map fun k => .number (.int (.ofNat k)))
  | .listed v vs => .listed v.spelled (spelledAll vs)

/-- The values with all faces in them spelled out. -/
def spelledAll : List Value → List Value
  | [] => []
  | v :: vs => v.spelled :: spelledAll vs

end

theorem spelledAll_eq_map (vs : List Value) :
  spelledAll vs = vs.map Value.spelled
  := by
  induction vs with
  | nil => rfl
  | cons v vs ih => rw [spelledAll, List.map_cons, ih]

theorem integers_of_pos {n : Nat} (h : 0 < n) :
  integers n
    = .number (.int 1) :: (List.range' 2 (n - 1)).map fun k => .number (.int (.ofNat k))
  := by
  obtain ⟨n, rfl⟩ := Nat.exists_eq_succ_of_ne_zero (Nat.ne_of_gt h)
  rfl

/-! ### What spelling out keeps -/

mutual

theorem Value.total_spelled (v : Value) :
  v.spelled.total = v.total
  := by
  cases v with
  | number x => rfl
  | list vs => exact totalFrom_spelledAll .zero vs
  | die x f => rfl

theorem totalFrom_spelledAll (acc : Number) (vs : List Value) :
  Value.totalFrom acc (spelledAll vs) = Value.totalFrom acc vs
  := by
  cases vs with
  | nil => rfl
  | cons v vs =>
    rw [spelledAll, Value.totalFrom, Value.totalFrom, v.total_spelled, totalFrom_spelledAll]

end

mutual

theorem Value.displayChars_spelled (v : Value) :
  v.spelled.displayChars = v.displayChars
  := by
  cases v with
  | number x => rfl
  | list vs =>
    cases vs with
    | nil => rfl
    | cons v vs =>
      rw [Value.spelled, spelledAll, Value.displayChars, Value.displayChars,
        v.displayChars_spelled, displayRest_spelledAll]
  | die x f => rfl

theorem displayRest_spelledAll (vs : List Value) :
  displayRest (spelledAll vs) = displayRest vs
  := by
  cases vs with
  | nil => rfl
  | cons v vs =>
    rw [spelledAll, displayRest, displayRest, v.displayChars_spelled, displayRest_spelledAll]

end

namespace Faces

theorem count_spelled (f : Faces) :
  f.spelled.count = f.count
  := by
  cases f with
  | upTo n pos =>
    simp only [spelled, count, List.length_map, List.length_range']
    omega
  | listed v vs => simp [spelled, count, spelledAll_eq_map]

/-- The faces show what they show when they are spelled out. -/
theorem outcome_spelled (f : Faces) {k : Nat} (hk : k < f.count) (hk' : k < f.spelled.count) :
  f.spelled.outcome ⟨k, hk'⟩ = f.outcome ⟨k, hk⟩
  := by
  cases f with
  | upTo n pos =>
    have hface := List.getElem_of_eq (integers_of_pos pos).symm hk'
    apply (congrArg Value.total hface).trans
    simp only [integers, List.getElem_map, List.getElem_range']
    rw [Nat.one_mul, Nat.add_comm]
    rfl
  | listed v vs =>
    have hvalues : v.spelled :: spelledAll vs = (v :: vs).map Value.spelled := by
      rw [spelledAll_eq_map, List.map_cons]
    have hface := List.getElem_of_eq hvalues hk'
    apply (congrArg Value.total hface).trans
    rw [List.getElem_map, Value.total_spelled]
    rfl

theorem outcome_congr {f g : Faces} (h : f = g) {k : Nat} (hf : k < f.count) (hg : k < g.count) :
  f.outcome ⟨k, hf⟩ = g.outcome ⟨k, hg⟩
  := by
  subst h
  rfl

end Faces

/-! ### Values that are the same when spelled out -/

/-- Two values that are the same once all faces in them are spelled out. -/
def Value.SameSpelled (v w : Value) : Prop :=
  v.spelled = w.spelled

theorem Value.SameSpelled.refl (v : Value) :
  v.SameSpelled v
  := rfl

/-- Two faces that are the same once they are spelled out. -/
def Faces.SameSpelled (f g : Faces) : Prop :=
  f.spelled = g.spelled

/-- Two operands that stand for the same faces: they are the same when spelled out, or one is a
number and the other one the list of the integers up to it. -/
inductive Value.SameDomain : Value → Value → Prop
  | spelled {v w : Value} : v.SameSpelled w → SameDomain v w
  | integers (x : Number) : 0 < x.toInt →
      SameDomain (.number x) (.list (integers x.toInt.toInt.toNat))

namespace Value

theorem spelledAll_eq_iff {vs ws : List Value} :
  spelledAll vs = spelledAll ws ↔ List.Forall₂ SameSpelled vs ws
  := by
  rw [spelledAll_eq_map, spelledAll_eq_map, ← List.forall₂_eq_eq_eq, List.forall₂_map_left_iff,
    List.forall₂_map_right_iff]
  rfl

/-- Such values are of one kind, and have such parts. -/
theorem SameSpelled.cases {v w : Value} (h : v.SameSpelled w) :
  (∃ x, v = .number x ∧ w = .number x)
    ∨ (∃ vs ws, v = .list vs ∧ w = .list ws ∧ List.Forall₂ SameSpelled vs ws)
    ∨ ∃ x f g, v = .die x f ∧ w = .die x g ∧ f.SameSpelled g
  := by
  unfold SameSpelled at h
  cases v <;> cases w <;> simp only [spelled, number.injEq, list.injEq, die.injEq, reduceCtorEq] at h
  · exact .inl ⟨_, rfl, congrArg _ h.symm⟩
  · exact .inr (.inl ⟨_, _, rfl, rfl, spelledAll_eq_iff.1 h⟩)
  · exact .inr (.inr ⟨_, _, _, rfl, by rw [h.1], h.2⟩)

variable {v w : Value} (h : v.SameSpelled w)

include h

theorem SameSpelled.total :
  v.total = w.total
  := by
  rw [← v.total_spelled, h, w.total_spelled]

theorem SameSpelled.display :
  v.display = w.display
  := by
  rw [Value.display, Value.display, ← v.displayChars_spelled, h, w.displayChars_spelled]

theorem SameSpelled.elements :
  List.Forall₂ SameSpelled v.elements w.elements
  := by
  rcases h.cases with ⟨x, rfl, rfl⟩ | ⟨vs, ws, rfl, rfl, hvs⟩ | ⟨x, f, g, rfl, rfl, hf⟩
  · exact List.Forall₂.nil.cons h
  · exact hvs
  · exact List.Forall₂.nil.cons h

theorem SameSpelled.redrawFaces :
  v.redrawFaces.SameSpelled w.redrawFaces
  := by
  have htotal := h.total
  rcases h.cases with ⟨x, rfl, rfl⟩ | ⟨vs, ws, rfl, rfl, hvs⟩ | ⟨x, f, g, rfl, rfl, hf⟩
  · rfl
  · exact congrArg (fun x => (Faces.inferred x).spelled) htotal
  · exact hf

theorem SameSpelled.ofValue? :
  Option.Rel Faces.SameSpelled (Faces.ofValue? v) (Faces.ofValue? w)
  := by
  have hnumber : ∀ x : Number, Option.Rel Faces.SameSpelled (Faces.ofValue? (.number x))
      (Faces.ofValue? (.number x)) := by
    intro x
    cases Faces.ofValue? (.number x) with
    | none => exact .none
    | some f => exact .some rfl
  rcases h.cases with ⟨x, rfl, rfl⟩ | ⟨vs, ws, rfl, rfl, hvs⟩ | ⟨x, f, g, rfl, rfl, hf⟩
  · exact hnumber x
  · cases hvs with
    | nil => exact .none
    | cons hv hvs => exact .some (congrArg₂ Faces.listed hv (spelledAll_eq_iff.2 hvs))
  · exact hnumber x

end Value

/-- Such operands stand for faces that are the same when spelled out. -/
theorem Value.SameDomain.ofValue? {v w : Value} (h : v.SameDomain w) :
  Option.Rel Faces.SameSpelled (Faces.ofValue? v) (Faces.ofValue? w)
  := by
  cases h with
  | spelled h => exact h.ofValue?
  | integers x hx =>
    have hpos : 0 < x.toInt.toInt.toNat := by
      rw [Int64.lt_iff_toInt_lt, Int64.toInt_zero] at hx
      omega
    have hcounted : Faces.ofValue? (.number x) = some (.upTo _ hpos) := dif_pos hpos
    rw [hcounted, integers_of_pos hpos]
    apply Option.Rel.some
    rw [Faces.SameSpelled, Faces.spelled, Faces.spelled, spelledAll_eq_map, List.map_map]
    rfl

namespace Faces.SameSpelled

variable {f g : Faces} (h : f.SameSpelled g)

include h

theorem count :
  f.count = g.count
  := by
  rw [← f.count_spelled, h, g.count_spelled]

theorem landed (i : Fin f.count) (j : Fin g.count) (hij : i.val = j.val) :
  (Die.landed f i).toValue.SameSpelled (Die.landed g j).toValue
  := by
  have hf : i.val < f.spelled.count := by
    rw [f.count_spelled]
    exact i.isLt
  have hg : i.val < g.spelled.count := h ▸ hf
  have houtcome : f.outcome i = g.outcome j := by
    calc f.outcome i = f.spelled.outcome ⟨i, hf⟩ := (f.outcome_spelled i.isLt hf).symm
      _ = g.spelled.outcome ⟨i, hg⟩ := outcome_congr h hf hg
      _ = g.outcome ⟨i, hij ▸ j.isLt⟩ := g.outcome_spelled _ hg
      _ = g.outcome j := congrArg g.outcome (Fin.ext hij)
  exact congrArg₂ Value.die houtcome h

end Faces.SameSpelled

/-- Values are alike if they are the same when spelled out, and so are the values that scopes bind
to the same names. -/
def Likeness.spelled : Likeness where
  value := Value.SameSpelled
  faces := Faces.SameSpelled
  domain := Value.SameDomain
  scope := Scope.Like Value.SameSpelled
  number _ := rfl
  list h := congrArg Value.list (Value.spelledAll_eq_iff.2 h)
  elements := Value.SameSpelled.elements
  total := Value.SameSpelled.total
  redrawFaces := Value.SameSpelled.redrawFaces
  domain_of_value := .spelled
  ofValue? := Value.SameDomain.ofValue?
  count := Faces.SameSpelled.count
  landed := Faces.SameSpelled.landed
  get := Scope.Like.get
  set := Scope.Like.set
  bind := Scope.Like.bind
  push := Scope.Like.push
  pop := Scope.Like.pop

end Dice
