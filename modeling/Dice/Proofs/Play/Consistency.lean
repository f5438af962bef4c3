import Dice.Proofs.Context.Consistent
import Dice.Proofs.Play.Outcome
import Dice.Proofs.Play.Reach
import Dice.Roller.Replay

/-!
# Consistent runs

A program that starts in a fresh context, and makes its calls with values that it read from texts or
obtained before, never comes to an inconsistent die: none is in a result, in the scope or in the
history, as long as no die is thrown that has a NaN on one of its faces.
-/

namespace Dice

/-! ### Calls -/

namespace Call

/-- The values that a call is made with. -/
def operands : Call → List Value
  | roll _ faces => [faces]
  | rollOne faces => [faces]
  | rollUntil faces _ _ => [faces]
  | redraw vs _ _ _ => vs
  | apply _ left right => [left, right]
  | applyOne _ operand => [operand]

/-- The faces that a call throws are consistent where its operands are. -/
theorem consistent_of_mem_faces {c : Call} (h : ∀ v ∈ c.operands, v.Consistent) {f : Faces}
    (hf : f ∈ c.faces) :
  f.Consistent
  := by
  have hof : ∀ {v : Value}, v ∈ c.operands → f ∈ (Faces.ofValue? v).toList → f.Consistent :=
    fun hv hf => Faces.consistent_of_ofValue? (h _ hv) (Option.mem_toList.1 hf)
  have hredrawn : ∀ {vs : List Value} {test : Value → Bool}, (∀ v ∈ vs, v.Consistent) →
      f ∈ (vs.filter test).map Value.redrawFaces → f.Consistent := by
    intro vs test hvs hf
    obtain ⟨v, hv, rfl⟩ := List.mem_map.1 hf
    exact Faces.consistent_redrawFaces (hvs v (List.mem_filter.1 hv).1)
  cases c with
  | roll count faces => exact hof List.mem_cons_self hf
  | rollOne faces => exact hof List.mem_cons_self hf
  | rollUntil faces cmp threshold => exact hof List.mem_cons_self hf
  | redraw vs cmp threshold how => exact hredrawn h hf
  | apply op left right =>
    cases op with
    | roll => exact hof (List.mem_cons_of_mem left List.mem_cons_self) hf
    | rollUntil cmp => exact hof List.mem_cons_self hf
    | redraw how cmp =>
      apply hredrawn _ hf
      exact (Value.consistent_iff_elements left).1 (h left List.mem_cons_self)
    | ranked action rank => cases hf
    | filtered action cmp => cases hf
  | applyOne op operand =>
    cases op with
    | roll => exact hof List.mem_cons_self hf
    | _ => cases hf

/-- The elements of a call are consistent where its operands are. -/
theorem consistent_of_mem_elements {c : Call} (h : ∀ v ∈ c.operands, v.Consistent) {v : Value}
    (hv : v ∈ c.elements) :
  v.Consistent
  := by
  have hleft : ∀ {op : Operator} {left right : Value}, c = .apply op left right →
      v ∈ left.elements → v.Consistent := by
    rintro op left right rfl hv
    exact (Value.consistent_iff_elements left).1 (h left List.mem_cons_self) v hv
  cases c with
  | redraw vs cmp threshold how => exact h v hv
  | apply op left right =>
    cases op with
    | redraw how cmp => exact hleft rfl hv
    | ranked action rank => exact hleft rfl hv
    | filtered action cmp => exact hleft rfl hv
    | _ => cases hv
  | _ => cases hv

/-- What a call gives is consistent where its operands are, unless a die lands on a NaN. -/
theorem Gives.consistent {c : Call} (h : ∀ v ∈ c.operands, v.Consistent)
    (hordinary : ∀ f ∈ c.faces, f.Ordinary) {v : Value} (hv : c.Gives v) :
  v.Consistent
  := by
  cases hv with
  | element hv => exact consistent_of_mem_elements h hv
  | landed i hf => exact Die.consistent_landed (consistent_of_mem_faces h hf) (hordinary _ hf) i
  | zero => apply Value.consistent_number

variable {ρ : Type} [Roller ρ]

/-- A call with consistent operands leaves a consistent context, and gives consistent values. -/
theorem perform_consistent
    {c : Call} (h : ∀ v ∈ c.operands, v.Consistent) (hordinary : ∀ f ∈ c.faces, f.Ordinary)
    {ctx : Context ρ} (hctx : ctx.Consistent) :
  Leaves Context.Consistent (fun result : Step.Result => ∀ v ∈ result.values,
    v.Consistent ∧ c.Gives v) (c.perform ctx)
  := by
  have hgives : ∀ v, c.Gives v → v.Consistent := fun v hv => hv.consistent h hordinary
  rw [perform_eq]
  cases heffect : (c.effect : Except EvalError (Effect ρ)) with
  | error e => exact hctx
  | ok effect =>
    have hmade := made_of_effect heffect
    cases effect with
    | throws run =>
      rw [Effect.playChecked, Effect.play, Play.metered]
      split
      · exact hctx
      · have hrun := hmade ctx.allowance ctx.roller
        refine ⟨?_, hctx.settle (hrun.mono hgives) _⟩
        intro v hv
        have hv' := hrun.result v hv
        exact ⟨hgives v hv', hv'⟩
    | sets name parted =>
      refine ⟨?_, hctx.set name ?_⟩
      · intro v hv
        have hv' := hmade v (List.mem_append_left _ hv)
        exact ⟨hgives v hv', hv'⟩
      · apply (Value.consistent_iff_elements _).2
        intro v hv
        exact hgives v (hmade v (List.mem_append_right _ hv))

end Call

/-! ### Programs -/

/-- The values that can be made of known ones: texts are read, numbers are written down, lists are
made and taken apart, and dice are put down and give back their faces. -/
inductive Value.Obtained (known : Value → Prop) : Value → Prop
  | known {v : Value} : known v → Obtained known v
  | text {s : String} {v : Value} : Value.ofText s = .ok v → Obtained known v
  | number (x : Number) : Obtained known (.number x)
  | list {vs : List Value} : (∀ v ∈ vs, Obtained known v) → Obtained known (.list vs)
  | item {v : Value} {vs : List Value} : Obtained known (.list vs) → v ∈ vs → Obtained known v
  | faces {x : Number} {f : Faces} : Obtained known (.die x f) → Obtained known f.toValue
  | die {v g : Value} {d : Die} : Obtained known v → Obtained known g → Die.ofValues v g = .ok d →
      Obtained known d.toValue

/-- What is obtained from consistent values is consistent. -/
theorem Value.Obtained.consistent {known : Value → Prop} (hknown : ∀ v, known v → v.Consistent)
    {v : Value} (h : Obtained known v) :
  v.Consistent
  := by
  induction h with
  | known hv => exact hknown _ hv
  | text h => exact consistent_of_ofText h
  | number x => apply consistent_number
  | list h ih => exact (consistent_list_iff _).2 ih
  | item h hv ih => exact (consistent_list_iff _).1 ih _ hv
  | @faces x f h ih => exact Faces.consistent_toValue ((consistent_die_iff x f).1 ih).2
  | die hv hg hd ihv ihg =>
    apply Die.consistent_of_ofValues ihg
    rw [hd]
    rfl

namespace Program

variable {ρ : Type}

/-- A program that uses no values but those it obtains: from texts, and from the results and the
contexts that it has seen. -/
def Closed : Program ρ → (Value → Prop) → Prop
  | done result, known => ∀ v, result = .ok v → Value.Obtained known v
  | call c next, known =>
    (∀ v ∈ c.operands, Value.Obtained known v)
      ∧ ∀ result, (next result).Closed fun v => known v ∨ ∃ a, result = .ok a ∧ v ∈ a.values
  | times _ body next, known =>
    (∀ i, (body i).Closed known)
      ∧ ∀ result, (next result).Closed fun v => known v ∨ ∃ vs, result = .ok vs ∧ v ∈ vs
  | look next, known => ∀ ctx, (next ctx).Closed fun v => known v ∨ ctx.Holds v
  | assign _ v next, known => Value.Obtained known v ∧ next.Closed known
  | bind _ v next, known => Value.Obtained known v ∧ next.Closed known

variable [Roller ρ]

/-- A program that is left to be run where nothing is inconsistent: it obtains its values from
consistent ones, and its run throws no faces with a NaN. -/
structure Sound (known : Value → Prop) (p : Program ρ) (ctx : Context ρ) : Prop where
  closed : p.Closed known
  known (v : Value) : known v → v.Consistent
  context : ctx.Consistent
  ordinary (c : Call) (next : Except EvalError Step.Result → Program ρ) (there : Context ρ) :
    Reaches (call c next) there p ctx → ∀ f ∈ c.faces, f.Ordinary

namespace Sound

variable {known : Value → Prop} {ctx ctx' : Context ρ}

section

variable {c : Call} {next : Except EvalError Step.Result → Program ρ}

/-- A call leaves a consistent context, and gives consistent values. -/
theorem perform (h : Sound known (call c next) ctx) :
  Leaves Context.Consistent (fun result : Step.Result => ∀ v ∈ result.values,
    v.Consistent ∧ c.Gives v) (c.perform ctx)
  := by
  apply Call.perform_consistent _ (h.ordinary c next ctx .refl) h.context
  intro v hv
  exact (h.closed.1 v hv).consistent h.known

theorem afterCall (h : Sound known (call c next) ctx) {result : Except EvalError Step.Result}
    (hresult : Play.attempt c.perform ctx = .ok result ctx') :
  Sound (fun v => known v ∨ ∃ a, result = .ok a ∧ v ∈ a.values) (next result) ctx'
  := by
  have hleaves := h.perform.attempt
  rw [hresult] at hleaves
  refine ⟨h.closed.2 result, ?_, hleaves.2, ?_⟩
  · rintro v (hv | ⟨a, ha, hv⟩)
    · exact h.known v hv
    · exact (hleaves.1 a ha v hv).1
  · intro d next' there hreaches
    exact h.ordinary d next' there (.afterCall hresult hreaches)

end

section

variable {count : Number} {body : Int64 → Program ρ}
  {next : Except EvalError (List Value) → Program ρ}

theorem inTimes (h : Sound known (times count body next) ctx) {k : Nat} {vs : List Value}
    (hk : k < count.toInt.toInt.toNat)
    (hvs : Play.iterate (fun i => (body i).run) k 0 ctx = .ok vs ctx')
    (hctx' : ctx'.Consistent) :
  Sound known (body (.ofNat k)) (ctx'.enter (.ofNat k))
  := by
  refine ⟨h.closed.1 _, h.known, hctx'.enter _, ?_⟩
  intro c next' there hreaches
  exact h.ordinary c next' there (.inTimes hk hvs hreaches)

theorem afterTimes (h : Sound known (times count body next) ctx)
    (htimes : Leaves Context.Consistent (fun vs => ∀ v ∈ vs, v.Consistent)
      (Play.times count (fun i => (body i).run) ctx))
    {result : Except EvalError (List Value)}
    (hresult : Play.attempt (Play.times count fun i => (body i).run) ctx = .ok result ctx') :
  Sound (fun v => known v ∨ ∃ vs, result = .ok vs ∧ v ∈ vs) (next result) ctx'
  := by
  have hleaves := htimes.attempt
  rw [hresult] at hleaves
  refine ⟨h.closed.2 result, ?_, hleaves.2, ?_⟩
  · rintro v (hv | ⟨vs, hvs, hv⟩)
    · exact h.known v hv
    · exact hleaves.1 vs hvs v hv
  · intro c next' there hreaches
    exact h.ordinary c next' there (.afterTimes hresult hreaches)

end

theorem afterLook {next : Context ρ → Program ρ} (h : Sound known (look next) ctx) :
  Sound (fun v => known v ∨ ctx.Holds v) (next ctx) ctx
  := by
  refine ⟨h.closed ctx, ?_, h.context, ?_⟩
  · rintro v (hv | hv)
    · exact h.known v hv
    · exact h.context v hv
  · intro c next' there hreaches
    exact h.ordinary c next' there (.afterLook hreaches)

section

variable {name : String} {v : Value} {next : Program ρ}

theorem afterAssign (h : Sound known (assign name v next) ctx) :
  Sound known next { ctx with scope := ctx.scope.set name v }
  := by
  refine ⟨h.closed.2, h.known, h.context.set name (h.closed.1.consistent h.known), ?_⟩
  intro c next' there hreaches
  exact h.ordinary c next' there (.afterAssign hreaches)

theorem afterBind (h : Sound known (bind name v next) ctx) :
  Sound known next { ctx with scope := ctx.scope.bind name v }
  := by
  refine ⟨h.closed.2, h.known, h.context.bind name (h.closed.1.consistent h.known), ?_⟩
  intro c next' there hreaches
  exact h.ordinary c next' there (.afterBind hreaches)

end

/-- A run leaves a consistent context, and comes to a consistent value. -/
theorem run {p : Program ρ} (h : Sound known p ctx) :
  Leaves Context.Consistent Value.Consistent (p.run ctx)
  := by
  induction p generalizing known ctx with
  | done result =>
    cases result with
    | error e => exact h.context
    | ok v => exact ⟨(h.closed v rfl).consistent h.known, h.context⟩
  | call c next ih =>
    apply h.perform.attempt.bind
    intro result ctx' hresult _ _
    exact ih result (h.afterCall hresult)
  | times count body next ihbody ihnext =>
    have htimes : Leaves Context.Consistent (fun vs => ∀ v ∈ vs, v.Consistent)
        (Play.times count (fun i => (body i).run) ctx) := by
      apply Leaves.times (fun _ => Context.Consistent.leave) h.context
      intro k vs ctx' hk hvs hctx'
      exact ihbody _ (h.inTimes hk hvs hctx')
    apply htimes.attempt.bind
    intro result ctx' hresult _ _
    exact ihnext result (h.afterTimes htimes hresult)
  | look next ih => exact ih ctx h.afterLook
  | assign name v next ih => exact ih h.afterAssign
  | bind name v next ih => exact ih h.afterBind

/-- A repeat leaves a consistent context, and lists consistent values. -/
theorem times {count : Number} {body : Int64 → Program ρ}
    {next : Except EvalError (List Value) → Program ρ}
    (h : Sound known (.times count body next) ctx) :
  Leaves Context.Consistent (fun vs => ∀ v ∈ vs, v.Consistent)
    (Play.times count (fun i => (body i).run) ctx)
  := by
  apply Leaves.times (fun _ => Context.Consistent.leave) h.context
  intro k vs ctx' hk hvs hctx'
  exact (h.inTimes hk hvs hctx').run

/-- What is reached from where nothing is inconsistent is such a point again. -/
theorem of_reaches {p q : Program ρ} {there : Context ρ} (hreaches : Reaches q there p ctx)
    (h : Sound known p ctx) :
  ∃ known', Sound known' q there
  := by
  obtain ⟨ms, hms⟩ := hreaches
  induction hms generalizing known with
  | refl => exact ⟨known, h⟩
  | afterCall _ ih => exact ih (h.afterCall (Play.attempt_apply _ _))
  | @inTimes count body next ctx ctx' k vs ms hk hvs _ ih =>
    have hleaves : Leaves Context.Consistent (fun vs => ∀ v ∈ vs, v.Consistent)
        (Play.iterate (fun i => (body i).run) k 0 ctx) := by
      apply Leaves.iterate (fun _ => Context.Consistent.leave) h.context
      intro j ws ctx₁ hj hws hctx₁
      exact (h.inTimes (Nat.lt_trans hj hk) hws hctx₁).run
    rw [hvs] at hleaves
    exact ih (h.inTimes hk hvs hleaves.2)
  | afterTimes _ ih => exact ih (h.afterTimes h.times (Play.attempt_apply _ _))
  | afterLook _ ih => exact ih h.afterLook
  | afterAssign _ ih => exact ih h.afterAssign
  | afterBind _ ih => exact ih h.afterBind

end Sound

/-- A closed program that starts without bindings and entries, and throws no faces with a NaN, comes
to a consistent value and leaves a consistent context. So does each of its calls and repeats, and
every context that it reaches is consistent. What a call gives are elements that it was given, and
dice that landed on the faces it throws: where those are counted, the count is a 64-bit integer, and
each die shows one of the integers up to it. -/
theorem run_consistent
    (p : Program ρ) (ctx : Context ρ) (hscope : ctx.scope = .empty) (hentries : ctx.entries = [])
    (hclosed : p.Closed fun _ => False)
    (hordinary : ∀ c next there, Reaches (call c next) there p ctx → ∀ f ∈ c.faces, f.Ordinary) :
  Leaves Context.Consistent Value.Consistent (p.run ctx)
    ∧ (∀ q there, Reaches q there p ctx → there.Consistent)
    ∧ (∀ c next there, Reaches (call c next) there p ctx →
      Leaves Context.Consistent (fun result : Step.Result => ∀ v ∈ result.values,
          v.Consistent ∧ c.Gives v) (c.perform there)
        ∧ ∀ (n : Nat) pos, .upTo n pos ∈ c.faces → n ≤ Int64.maxValue.toInt
          ∧ ∀ i : Fin n, ∃ k : Int64, (Faces.upTo n pos).outcome i = .int k ∧ k.toInt = i + 1
            ∧ 1 ≤ k.toInt ∧ k.toInt ≤ n)
    ∧ ∀ count body next there, Reaches (.times count body next) there p ctx →
      Leaves Context.Consistent (fun vs => ∀ v ∈ vs, v.Consistent)
        (Play.times count (fun i => (body i).run) there)
  := by
  have hctx : ctx.Consistent := by
    rintro v (⟨f, hf, n, hn⟩ | ⟨e, he, hv⟩)
    · rw [hscope] at hf
      obtain rfl := List.mem_singleton.1 hf
      cases hn
    · rw [hentries] at he
      cases he
  have hsound : Sound (fun _ => False) p ctx := ⟨hclosed, fun v hv => hv.elim, hctx, hordinary⟩
  refine ⟨hsound.run, ?_, ?_, ?_⟩
  · intro q there hreaches
    obtain ⟨known, h⟩ := Sound.of_reaches hreaches hsound
    exact h.context
  · intro c next there hreaches
    obtain ⟨known, h⟩ := Sound.of_reaches hreaches hsound
    refine ⟨h.perform, ?_⟩
    intro n pos hf
    have hoperands : ∀ v ∈ c.operands, v.Consistent :=
      fun v hv => (h.closed.1 v hv).consistent h.known
    have hrange := (Call.consistent_of_mem_faces hoperands hf).inRange
    exact ⟨hrange.2, Faces.toInt_outcome_upTo hrange⟩
  · intro count body next there hreaches
    obtain ⟨known, h⟩ := Sound.of_reaches hreaches hsound
    exact h.times

end Program

/-- Faces among which are a list and a die. -/
def Value.mixed : Value :=
  .list [.number (.int 1), .list [.number (.int 2), .number (.int 3)],
    .die (.int 4) (.upTo 6 (Nat.succ_pos 5))]

/-- Throws until a five, and then throws the die that is the five. -/
def Program.fives : Program Replay :=
  .call (.apply (.rollUntil .eq) .mixed (.number (.int 5))) fun _ =>
    .look fun ctx =>
      .call (.rollOne ((ctx.scope.get? Scope.lastHit).getD (.number (.int 6)))) fun result =>
        .done (result.map fun _ => .number .zero)

/-- A context in which the third face comes up, and then the second. -/
def Context.ofFives : Context Replay :=
  ((Context.start ⟨[2, 1, 0], by decide, 0⟩).withQuota (.fresh 5 9)).withHistory

namespace Program

theorem closed_fives :
  fives.Closed fun _ => False
  := by
  have htext : Value.ofText Value.mixed.code = .ok Value.mixed := by
    have hcode := Value.ofText_code Value.mixed
    rw [Value.reread?_of_isExact Value.mixed (by decide)] at hcode
    exact eq_ok_of_toOption hcode
  refine ⟨?_, ?_⟩
  · intro v hv
    rcases List.mem_cons.1 hv with rfl | hv
    · apply Value.Obtained.text htext
    · obtain rfl := List.mem_singleton.1 hv
      apply Value.Obtained.number
  · intro result ctx
    refine ⟨?_, ?_⟩
    · intro v hv
      obtain rfl := List.mem_singleton.1 hv
      cases hu : ctx.scope.get? Scope.lastHit with
      | none => apply Value.Obtained.number
      | some v => exact .known (.inr (.inl (Scope.holds_of_get? hu)))
    · intro result v hv
      cases result with
      | error e => cases hv
      | ok a =>
        cases hv
        apply Value.Obtained.number

theorem ordinary_fives
    (c : Call) (next : Except EvalError Step.Result → Program Replay) (there : Context Replay)
    (h : Reaches (call c next) there fives .ofFives) :
  ∀ f ∈ c.faces, f.Ordinary
  := by
  obtain ⟨ms, h⟩ := h
  rw [fives] at h
  cases h with
  | refl =>
    intro f hf
    obtain rfl := List.mem_singleton.1 hf
    intro i
    revert i
    decide
  | afterCall h =>
    cases h with
    | afterLook h =>
      cases h with
      | refl =>
        intro f hf
        obtain rfl := List.mem_singleton.1 hf
        intro i
        rfl
      | afterCall h => cases h

/-- No inconsistent die comes up in these throws. -/
theorem run_fives :
  (Context.ofFives.scope = .empty ∧ Context.ofFives.entries = [] ∧ (fives.Closed fun _ => False)
      ∧ ∀ c next there, Reaches (call c next) there fives .ofFives → ∀ f ∈ c.faces, f.Ordinary)
    ∧ Leaves Context.Consistent Value.Consistent (fives.run .ofFives)
  := ⟨⟨rfl, rfl, closed_fives, ordinary_fives⟩,
    (run_consistent fives .ofFives rfl rfl closed_fives ordinary_fives).1⟩

end Program

end Dice
