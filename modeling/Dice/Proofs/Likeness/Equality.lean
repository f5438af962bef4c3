import Dice.Proofs.Likeness.Programs
import Dice.Proofs.Likeness.Scopes

/-!
# Equality as a likeness

The finest likeness of values is their equality. With it go two likenesses of scopes: that they are
the same, and that their frames bind the same names to the same values. Calls, results and programs
are then alike if they are the same.
-/

namespace Dice.Likeness

/-- Only equal values and equal scopes are alike. -/
def equal : Likeness where
  value := Eq
  faces := Eq
  domain := Eq
  scope := Eq
  number _ := rfl
  list h := by
    rw [List.forall₂_eq_eq_eq] at h
    rw [h]
  elements h := by rw [h, List.forall₂_eq_eq_eq]
  total := congrArg _
  redrawFaces := congrArg _
  domain_of_value h := h
  ofValue? h := by
    rw [h]
    exact rel_refl (fun _ => rfl) _
  count := congrArg _
  landed := by
    rintro f g rfl i j hij
    rw [Fin.ext hij]
  get h name := by
    rw [h]
    exact rel_refl (fun _ => rfl) _
  set h hv name := by rw [h, hv]
  bind h hv name := by rw [h, hv]
  push := congrArg _
  pop := congrArg _

/-- Only equal values are alike, and scopes that bind the same names to the same values. -/
def bindings : Likeness :=
  { equal with
    scope := Scope.Like Eq
    get := Scope.Like.get
    set := Scope.Like.set
    bind := Scope.Like.bind
    push := Scope.Like.push
    pop := Scope.Like.pop }

/-! ### What is alike is the same -/

/-- Only equal values are alike. -/
def Exact (L : Likeness) : Prop :=
  ∀ v w, L.value v w ↔ v = w

theorem exact_equal :
  equal.Exact
  := fun _ _ => Iff.rfl

theorem Agree.eq {α : Type} {Q : α → α → Prop} (hQ : ∀ a b, Q a b → a = b)
    {x y : Except EvalError α} (h : Agree Q x y) :
  x = y
  := by
  cases h with
  | ok hab => rw [hQ _ _ hab]
  | error e => rfl

namespace Exact

variable {L : Likeness} (hL : L.Exact)

include hL

theorem eq_of_values {vs ws : List Value} (h : List.Forall₂ L.value vs ws) :
  vs = ws
  := by
  induction h with
  | nil => rfl
  | cons hv h ih => rw [(hL _ _).1 hv, ih]

theorem eq_of_results {r r' : Step.Result} (h : L.Results r r') :
  r = r'
  := by
  cases h with
  | value hv => rw [(hL _ _).1 hv]
  | @parted p q hp =>
    obtain ⟨value, side⟩ := p
    obtain ⟨value', side'⟩ := q
    cases hL.eq_of_values hp.value
    cases (hL _ _).1 hp.side
    rfl

theorem agree_refl (result : Except EvalError Value) :
  Agree L.value result result
  := by
  cases result with
  | ok v => exact .ok ((hL v v).2 rfl)
  | error e => exact .error e

theorem calls_refl (c : Call) :
  L.Calls c c
  := by
  have hvalue := fun v => (hL v v).2 rfl
  have hdomain := fun v => L.domain_of_value (hvalue v)
  cases c with
  | roll count faces => exact .roll count (hdomain faces)
  | rollOne faces => exact .rollOne (hdomain faces)
  | rollUntil faces cmp threshold => exact .rollUntil cmp threshold (hdomain faces)
  | redraw vs cmp threshold how =>
    exact .redraw cmp threshold how (List.forall₂_same.2 fun v _ => hvalue v)
  | apply op left right => exact .apply op (hvalue left) (hvalue right)
  | applyOne op operand => exact .applyOne op (hdomain operand)

variable {ρ : Type}

/-- A program is alike itself if what follows its first call is, whatever the call comes to. -/
theorem programs_call (c : Call) {next : Except EvalError Step.Result → Program ρ}
    (h : ∀ result, L.Programs (next result) (next result)) :
  L.Programs (.call c next) (.call c next)
  := by
  apply Programs.call (hL.calls_refl c)
  intro result result' hresult
  obtain rfl := hresult.eq fun _ _ => hL.eq_of_results
  exact h result

/-- The same for a program that begins with a repeat. -/
theorem programs_times (count : Number) {body : Int64 → Program ρ}
    {next : Except EvalError (List Value) → Program ρ} (hbody : ∀ i, L.Programs (body i) (body i))
    (h : ∀ result, L.Programs (next result) (next result)) :
  L.Programs (.times count body next) (.times count body next)
  := by
  apply Programs.times count hbody
  intro result result' hresult
  obtain rfl := hresult.eq fun _ _ => hL.eq_of_values
  exact h result

end Exact

theorem eq_of_equal_calls {c d : Call} (h : equal.Calls c d) :
  c = d
  := by
  cases h with
  | roll count h => exact congrArg _ h
  | rollOne h => exact congrArg _ h
  | rollUntil cmp threshold h => exact congrArg (Call.rollUntil · cmp threshold) h
  | redraw cmp threshold how h =>
    exact congrArg (Call.redraw · cmp threshold how) (exact_equal.eq_of_values h)
  | apply op h h' => exact congrArg₂ (Call.apply op) h h'
  | applyRoll h h' => exact congrArg₂ (Call.apply .roll) h h'
  | applyUntil cmp h h' => exact congrArg₂ (Call.apply (.rollUntil cmp)) h h'
  | applyOne op h => exact congrArg _ h

end Dice.Likeness
