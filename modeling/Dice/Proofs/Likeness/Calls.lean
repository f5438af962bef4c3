import Dice.Proofs.Likeness.Throws
import Dice.Proofs.Play.Call

/-!
# Calls with operands that are alike

Calls with operands that are alike, in contexts that are alike, fail with the same error or come to
results that are alike. They charge and draw as much, and leave contexts that are alike. A history
plays no part in it.
-/

namespace Dice.Likeness

variable (L : Likeness)

/-! ### Calls and outcomes -/

/-- The operands of two calls are alike. An operand that stands for faces may be alike as such. -/
inductive Calls : Call → Call → Prop
  | roll {v w : Value} (count : Number) : L.domain v w → Calls (.roll count v) (.roll count w)
  | rollOne {v w : Value} : L.domain v w → Calls (.rollOne v) (.rollOne w)
  | rollUntil {v w : Value} (cmp : Comparator) (threshold : Number) : L.domain v w →
      Calls (.rollUntil v cmp threshold) (.rollUntil w cmp threshold)
  | redraw {vs ws : List Value} (cmp : Comparator) (threshold : Number) (how : Redraw) :
      List.Forall₂ L.value vs ws → Calls (.redraw vs cmp threshold how) (.redraw ws cmp threshold how)
  | apply {v v' w w' : Value} (op : Operator) : L.value v w → L.value v' w' →
      Calls (.apply op v v') (.apply op w w')
  | applyRoll {v v' w w' : Value} : L.value v w → L.domain v' w' →
      Calls (.apply .roll v v') (.apply .roll w w')
  | applyUntil {v v' w w' : Value} (cmp : Comparator) : L.domain v w → L.value v' w' →
      Calls (.apply (.rollUntil cmp) v v') (.apply (.rollUntil cmp) w w')
  | applyOne {v w : Value} (op : Operator) : L.domain v w → Calls (.applyOne op v) (.applyOne op w)

/-- What calls come to. -/
inductive Results : Step.Result → Step.Result → Prop
  | value {v w : Value} : L.value v w → Results (.value v) (.value w)
  | parted {p q : Parted} : L.Parts p q → Results (.parted p) (.parted q)

/-- Two contexts with the same roller and the same quota, and with scopes that are alike. -/
structure Contexts {ρ : Type} (ctx ctx' : Context ρ) : Prop where
  roller : ctx.roller = ctx'.roller
  quota : ctx.quota = ctx'.quota
  scope : L.scope ctx.scope ctx'.scope

/-- The same error, or results in a relation. -/
inductive Agree {α : Type} (Q : α → α → Prop) :
    Except EvalError α → Except EvalError α → Prop
  | ok {a b : α} : Q a b → Agree Q (.ok a) (.ok b)
  | error (e : EvalError) : Agree Q (.error e) (.error e)

/-- The same error or results in a relation, in contexts that are alike. -/
inductive Outcomes {ρ α : Type} (Q : α → α → Prop) :
    EStateM.Result EvalError (Context ρ) α → EStateM.Result EvalError (Context ρ) α → Prop
  | ok {a b : α} {ctx ctx' : Context ρ} : Q a b → L.Contexts ctx ctx' →
      Outcomes Q (.ok a ctx) (.ok b ctx')
  | error {e : EvalError} {ctx ctx' : Context ρ} : L.Contexts ctx ctx' →
      Outcomes Q (.error e ctx) (.error e ctx')

/-- Two computations with such outcomes in contexts that are alike. -/
def Plays {ρ α : Type} (Q : α → α → Prop) (m m' : Play ρ α) : Prop :=
  ∀ ⦃ctx ctx' : Context ρ⦄, L.Contexts ctx ctx' → L.Outcomes Q (m ctx) (m' ctx')

/-! ### Effects -/

/-- Two runs of throws that come to the same but for their entries. -/
structure Throws {α : Type} (Q : α → α → Prop) (t u : Thrown α) : Prop where
  result : Q t.result u.result
  count : t.count = u.count
  slot : Option.Rel (fun a b => a.1 = b.1 ∧ L.value a.2 b.2) t.slot u.slot

/-- Two such runs of throws that leave the same roller. -/
def Runs {ρ α : Type} (Q : α → α → Prop) (x y : Thrown α × ρ) : Prop :=
  L.Throws Q x.1 y.1 ∧ x.2 = y.2

/-- Two effects that come to the same but for the entries. -/
inductive Effects {ρ : Type} : Effect ρ → Effect ρ → Prop
  | throws {run run' : Nat → ρ → Thrown Step.Result × ρ} :
      (∀ limit r, L.Runs L.Results (run limit r) (run' limit r)) →
      Effects (.throws run) (.throws run')
  | sets {p q : Parted} (name : String) : L.Parts p q → Effects (.sets name p) (.sets name q)

variable {L} {ρ : Type}

/-- Handing on the result of a run. -/
theorem Runs.map {α β : Type} {Q : α → α → Prop} {R : β → β → Prop} {k : α → β}
    {x y : Thrown α × ρ} (h : L.Runs Q x y) (hk : ∀ a b, Q a b → R (k a) (k b)) :
  L.Runs R (x.1.map k, x.2) (y.1.map k, y.2)
  := ⟨⟨hk _ _ h.1.result, h.1.count, h.1.slot⟩, h.2⟩

/-- Assigning what a run sets aside. -/
theorem Runs.publish {x y : Thrown Parted × ρ} (h : L.Runs L.Parts x y) (name : String) :
  L.Runs L.Results (x.1.publish name, x.2) (y.1.publish name, y.2)
  := ⟨⟨.value (L.list h.1.result.value), h.1.count, .some ⟨rfl, h.1.result.side⟩⟩, h.2⟩

section

variable [Roller ρ] {f g : Faces} (h : L.faces f g)

include h

theorem many (requested : Nat) (label label' : String) (limit : Nat) (r : ρ) :
  L.Runs (List.Forall₂ L.value) (Thrown.many f requested label limit r)
    (Thrown.many g requested label' limit r)
  := by
  obtain ⟨hdice, hroller⟩ := drawMany h (min requested limit) r
  exact ⟨⟨values_of_dice hdice, rfl, .none⟩, hroller⟩

theorem one (label label' : String) (limit : Nat) (r : ρ) :
  L.Runs L.dice (Thrown.one f label limit r) (Thrown.one g label' limit r)
  := by
  obtain ⟨hdie, hroller⟩ := draw h r
  exact ⟨⟨hdie, rfl, .none⟩, hroller⟩

theorem untilHit (test : Number → Bool) (label label' : String) (limit : Nat) (r : ρ) :
  L.Runs L.Parts (Thrown.untilHit f test label limit r) (Thrown.untilHit g test label' limit r)
  := by
  obtain ⟨hmisses, hhit, hroller⟩ := drawUntil h test limit r
  simp only [Thrown.untilHit]
  rcases hf : f.drawUntil test limit r with ⟨ds, found, r₁⟩
  rcases hg : g.drawUntil test limit r with ⟨es, found', r₂⟩
  rw [hf, hg] at hmisses hhit hroller
  cases hhit with
  | none => exact ⟨⟨⟨values_of_dice hmisses, L.number _⟩, hmisses.length_eq, .none⟩, hroller⟩
  | some hdie =>
    exact ⟨⟨⟨values_of_dice hmisses, hdie⟩, congrArg (· + 1) hmisses.length_eq, .none⟩, hroller⟩

end

/-- A throw from the faces of operands that are alike. -/
theorem throwing {v w : Value} (h : L.domain v w)
    {run run' : Faces → Nat → ρ → Thrown Step.Result × ρ}
    (hrun : ∀ f g, L.faces f g → ∀ limit r, L.Runs L.Results (run f limit r) (run' g limit r)) :
  Agree L.Effects (Call.throwing v run) (Call.throwing w run')
  := by
  have hfaces := L.ofValue? h
  unfold Call.throwing
  generalize Faces.ofValue? v = f? at hfaces ⊢
  generalize Faces.ofValue? w = g? at hfaces ⊢
  cases hfaces with
  | none => exact .error _
  | some hfaces => exact .ok (.throws (hrun _ _ hfaces))

section

variable [Roller ρ]

theorem rollEffect {v w : Value} (h : L.domain v w) (count : Number) :
  Agree L.Effects (Call.rollEffect count v : Except EvalError (Effect ρ))
    (Call.rollEffect count w)
  := by
  unfold Call.rollEffect
  by_cases hcount : count.toInt.toInt.toNat = 0
  · simp only [if_pos hcount]
    exact .error _
  · simp only [if_neg hcount]
    apply throwing h
    intro f g hfaces limit r
    apply (many hfaces _ _ _ limit r).map
    intro vs ws hvs
    exact .value (L.list hvs)

theorem rollOneEffect {v w : Value} (h : L.domain v w) :
  Agree L.Effects (Call.rollOneEffect v : Except EvalError (Effect ρ)) (Call.rollOneEffect w)
  := by
  apply throwing h
  intro f g hfaces limit r
  apply (one hfaces _ _ limit r).map
  intro d e hdie
  exact .value hdie

theorem untilEffect {v w : Value} (h : L.domain v w) (cmp : Comparator) (threshold : Number)
    {k : Thrown Parted → Thrown Step.Result}
    (hk : ∀ x y : Thrown Parted × ρ, L.Runs L.Parts x y →
      L.Runs L.Results (k x.1, x.2) (k y.1, y.2)) :
  Agree L.Effects (Call.untilEffect v cmp threshold k : Except EvalError (Effect ρ))
    (Call.untilEffect w cmp threshold k)
  := by
  apply throwing h
  intro f g hfaces limit r
  exact hk _ _ (untilHit hfaces _ _ _ limit r)

theorem redrawEffect {vs ws : List Value} (h : List.Forall₂ L.value vs ws) (cmp : Comparator)
    (threshold : Number) (how : Redraw) :
  L.Effects (Call.redrawEffect vs cmp threshold how : Effect ρ)
    (Call.redrawEffect ws cmp threshold how)
  := by
  apply Effects.throws
  intro limit r
  obtain ⟨hvalues, heq⟩ := redrawAll h how (cmp.holds · threshold) limit r
  obtain ⟨hcount, hroller⟩ := Prod.ext_iff.1 heq
  exact ⟨⟨.value (L.list hvalues), hcount, .none⟩, hroller⟩

theorem applyEffect {v v' w w' : Value} (op : Operator) (h : L.value v w) (h' : L.value v' w') :
  Agree L.Effects ((Call.apply op v v').effect : Except EvalError (Effect ρ))
    (Call.apply op w w').effect
  := by
  have helements := L.elements h
  have htotal := L.total h'
  cases op with
  | roll =>
    simp only [Call.effect, L.total h]
    apply rollEffect (L.domain_of_value h')
  | rollUntil cmp =>
    simp only [Call.effect, htotal]
    apply untilEffect (L.domain_of_value h)
    intro x y hxy
    exact hxy.publish _
  | redraw how cmp =>
    simp only [Call.effect, htotal]
    exact .ok (redrawEffect helements cmp _ how)
  | ranked action rank =>
    have hparts := byCount? helements action rank w'.total.toInt
    simp only [Call.effect, htotal]
    generalize Choice.byCount? action rank w'.total.toInt v.elements = x at hparts ⊢
    generalize Choice.byCount? action rank w'.total.toInt w.elements = y at hparts ⊢
    cases hparts with
    | none => exact .error _
    | some hparts => exact .ok (.sets _ hparts)
  | filtered action cmp =>
    cases action <;>
    · simp only [Call.effect, htotal]
      exact .ok (.sets _ (byComparison helements _ _))

/-- The effects of calls with operands that are alike. -/
theorem effect {c d : Call} (h : L.Calls c d) :
  Agree L.Effects (c.effect : Except EvalError (Effect ρ)) d.effect
  := by
  cases h with
  | roll count h => exact rollEffect h count
  | rollOne h => exact rollOneEffect h
  | rollUntil cmp threshold h =>
    apply untilEffect h
    intro x y hxy
    exact hxy.map fun _ _ => .parted
  | redraw cmp threshold how h => exact .ok (redrawEffect h cmp threshold how)
  | apply op h h' => exact applyEffect op h h'
  | applyRoll h h' =>
    simp only [Call.effect, L.total h]
    exact rollEffect h' _
  | applyUntil cmp h h' =>
    simp only [Call.effect, L.total h']
    apply untilEffect h
    intro x y hxy
    exact hxy.publish _
  | applyOne op h =>
    cases op with
    | roll => exact rollOneEffect h
    | _ => exact .error _

end

/-! ### Performing calls -/

namespace Contexts

variable {ctx ctx' : Context ρ}

theorem allowance (h : L.Contexts ctx ctx') :
  ctx.allowance = ctx'.allowance
  := by
  rw [Context.allowance, Context.allowance, h.quota]

theorem set (h : L.Contexts ctx ctx') {v w : Value} (hv : L.value v w) (name : String) :
  L.Contexts { ctx with scope := ctx.scope.set name v }
    { ctx' with scope := ctx'.scope.set name w }
  where
  roller := h.roller
  quota := h.quota
  scope := L.set h.scope hv name

theorem bind (h : L.Contexts ctx ctx') {v w : Value} (hv : L.value v w) (name : String) :
  L.Contexts { ctx with scope := ctx.scope.bind name v }
    { ctx' with scope := ctx'.scope.bind name w }
  where
  roller := h.roller
  quota := h.quota
  scope := L.bind h.scope hv name

theorem settle {α : Type} {Q : α → α → Prop} (h : L.Contexts ctx ctx') {t u : Thrown α}
    (ht : L.Throws Q t u) (r : ρ) :
  L.Contexts (ctx.settle t r) (ctx'.settle u r)
  := by
  obtain ⟨a, count, entries, slot⟩ := t
  obtain ⟨b, count', entries', slot'⟩ := u
  obtain ⟨-, rfl, hslot⟩ := ht
  refine ⟨rfl, ?_, ?_⟩
  · simp only [Context.settle, h.quota]
  · cases hslot with
    | none => exact h.scope
    | @some a b hab =>
      obtain ⟨name, v⟩ := a
      obtain ⟨name', w⟩ := b
      obtain ⟨rfl, hv⟩ := hab
      exact L.set h.scope hv name

end Contexts

/-- Metered runs of throws that come to the same. -/
theorem metered {α : Type} {Q : α → α → Prop} {run run' : Nat → ρ → Thrown α × ρ}
    (h : ∀ limit r, L.Runs Q (run limit r) (run' limit r)) :
  L.Plays Q (Play.metered run) (Play.metered run')
  := by
  intro ctx ctx' hctx
  rw [Play.metered, Play.metered, ← hctx.allowance, ← hctx.roller]
  by_cases hzero : ctx.allowance = 0
  · rw [if_pos hzero, if_pos hzero]
    exact .error hctx
  · rw [if_neg hzero, if_neg hzero]
    obtain ⟨hthrown, hroller⟩ := h ctx.allowance ctx.roller
    simp only [← hroller]
    exact .ok hthrown.result (hctx.settle hthrown _)

/-- Calls with operands that are alike come to the same. -/
theorem perform [Roller ρ] {c d : Call} (h : L.Calls c d) :
  L.Plays L.Results (c.perform : Play ρ Step.Result) d.perform
  := by
  intro ctx ctx' hctx
  have heffect : Agree L.Effects (c.effect : Except EvalError (Effect ρ)) d.effect := effect h
  rw [Call.perform_eq, Call.perform_eq]
  generalize (c.effect : Except EvalError (Effect ρ)) = e₁ at heffect ⊢
  generalize (d.effect : Except EvalError (Effect ρ)) = e₂ at heffect ⊢
  cases heffect with
  | error e => exact .error hctx
  | ok heffect =>
    cases heffect with
    | throws hrun => exact metered hrun hctx
    | sets name hparts => exact .ok (.value (L.list hparts.value)) (hctx.set hparts.side name)

end Dice.Likeness
