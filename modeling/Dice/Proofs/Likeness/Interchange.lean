import Dice.Proofs.Likeness.Spelled
import Dice.Proofs.Quota.Truncation

/-!
# Numbers for lists of faces

A number that stands for the faces of dice and the list of the integers up to it are
interchangeable. The dice thrown from them differ in the faces that they keep, and these differ for
good: they are drawn from again, chosen among and thrown as faces themselves. Yet nothing that is
shown of a run, and nothing that is drawn or charged in it, depends on which of the two it was.
-/

namespace Dice

/-! ### Counting the draws of programs that are alike -/

namespace Likeness

variable {L : Likeness} {ρ σ : Type}

theorem Contexts.map {ctx ctx' : Context σ} (h : L.Contexts ctx ctx') (g : σ → ρ) :
  L.Contexts (ctx.map g) (ctx'.map g)
  where
  roller := congrArg g h.roller
  quota := h.quota
  scope := h.scope

theorem Programs.comap {p q : Program ρ} (h : L.Programs p q) (g : σ → ρ) :
  L.Programs (p.comap g) (q.comap g)
  := by
  induction h with
  | done h => exact .done h
  | call h hnext ih => exact .call h ih
  | times count hbody hnext ihbody ihnext => exact .times count ihbody ihnext
  | look hnext ih => exact .look fun ctx ctx' hctx => ih _ _ (hctx.map g)
  | assign name hv hnext ih => exact .assign name hv ih
  | bind name hv hnext ih => exact .bind name hv ih

variable [Roller ρ]

theorem Calls.draws_eq {c d : Call} (h : L.Calls c d) {ctx ctx' : Context ρ}
    (hctx : L.Contexts ctx ctx') :
  c.draws ctx = d.draws ctx'
  := congrArg Counted.drawn (perform h (hctx.map _)).after.roller

theorem Programs.draws_eq {p q : Program ρ} (h : L.Programs p q) {ctx ctx' : Context ρ}
    (hctx : L.Contexts ctx ctx') :
  p.draws ctx = q.draws ctx'
  := congrArg Counted.drawn ((h.comap _).run (hctx.map _)).after.roller

end Likeness

/-! ### What is shown -/

/-- Two values with the same display and the same total. -/
structure Value.Shown (v w : Value) : Prop where
  display : v.display = w.display
  total : v.total = w.total

/-- Two results of calls with the same displays and totals. -/
inductive Step.Result.Shown : Step.Result → Step.Result → Prop
  | value {v w : Value} : v.Shown w → Shown (.value v) (.value w)
  | parted {p q : Parted} : (Value.list p.value).Shown (.list q.value) → p.side.Shown q.side →
      Shown (.parted p) (.parted q)

/-- Two computations, each from a context, fail with the same error or come to results in a relation.
They leave the same roller and the same quota, and the values of each name have the same display and
the same total. -/
structure SameOutcome {ρ α : Type} (Q : α → α → Prop) (m : Play ρ α) (ctx : Context ρ)
    (m' : Play ρ α) (ctx' : Context ρ) : Prop where
  result : Likeness.Agree Q (m.result ctx) (m'.result ctx')
  roller : (m.after ctx).roller = (m'.after ctx').roller
  quota : (m.after ctx).quota = (m'.after ctx').quota
  bound (name : String) : Option.Rel Value.Shown ((m.after ctx).scope.get? name)
    ((m'.after ctx').scope.get? name)

theorem Value.SameSpelled.shown {v w : Value} (h : v.SameSpelled w) :
  v.Shown w
  := ⟨h.display, h.total⟩

theorem Likeness.Results.shown {r r' : Step.Result} (h : spelled.Results r r') :
  r.Shown r'
  := by
  cases h with
  | value hv => exact .value (Value.SameSpelled.shown hv)
  | parted hp =>
    exact .parted (Value.SameSpelled.shown (spelled.list hp.value))
      (Value.SameSpelled.shown hp.side)

variable {ρ : Type}

/-- Outcomes that are alike show the same. -/
theorem Likeness.Outcomes.same {α : Type} {Q R : α → α → Prop} (hQR : ∀ a b, Q a b → R a b)
    {m m' : Play ρ α} {ctx ctx' : Context ρ} (h : spelled.Outcomes Q (m ctx) (m' ctx')) :
  SameOutcome R m ctx m' ctx'
  where
  result := h.result.imp hQR
  roller := h.after.roller
  quota := h.after.quota
  bound name := rel_imp (fun _ _ => Value.SameSpelled.shown) (h.after.scope.get name)

/-! ### Runs from numbers and from lists -/

variable [Roller ρ]

/-- Of two programs that are the same but for faces that one gives as a number and the other one as
the list of the integers up to it, and that go on alike with what they see, each call comes to the
same as its counterpart: the same error or results of the same display and total, the same number of
dice drawn, the same quota, and values of the same display and total under every name. So do the two
runs. -/
theorem Program.interchange {p q : Program ρ} (h : Likeness.spelled.Programs p q)
    (ctx : Context ρ) :
  List.Forall₂
      (fun m m' =>
        SameOutcome Step.Result.Shown m.call.perform m.here m'.call.perform m'.here
          ∧ m.call.draws m.here = m'.call.draws m'.here)
      (p.calls ctx) (q.calls ctx)
    ∧ SameOutcome Value.Shown p.run ctx q.run ctx
    ∧ p.draws ctx = q.draws ctx
  := by
  have hctx : Likeness.spelled.Contexts ctx ctx :=
    ⟨rfl, rfl, Scope.Like.refl Value.SameSpelled.refl ctx.scope⟩
  refine ⟨?_, ?_, h.draws_eq hctx⟩
  · apply (h.calls hctx).imp
    intro m m' hm
    refine ⟨?_, hm.call.draws_eq hm.here⟩
    exact (Likeness.perform hm.call hm.here).same fun _ _ => Likeness.Results.shown
  · exact (h.run hctx).same fun _ _ => Value.SameSpelled.shown

/-- Two rounds of three dice, of which the greatest explode and two are kept. -/
def Program.harvest (faces : Value) : Program Replay :=
  .times (.int 2)
    (fun _ =>
      .call (.roll (.int 3) faces) (andThen fun thrown =>
      .call (.redraw thrown.elements .ge (.int 6) ⟨true, true⟩) (andThen fun grown =>
      .call (.apply (.ranked .keep .highest) grown (.number (.int 2))) (andThen fun kept =>
      .done (.ok kept)))))
    fun result => .done (result.map .list)

theorem Program.harvest_alike {v w : Value} (h : v.SameDomain w) :
  Likeness.spelled.Programs (harvest v) (harvest w)
  := by
  apply Likeness.Programs.times
  · intro i
    apply Likeness.Programs.call (.roll _ h)
    intro _ _ hthrown
    apply Likeness.Programs.andThen _ hthrown
    intro thrown thrown' hthrown
    apply Likeness.Programs.call (.redraw _ _ _ (Likeness.spelled.elements hthrown))
    intro _ _ hgrown
    apply Likeness.Programs.andThen _ hgrown
    intro grown grown' hgrown
    apply Likeness.Programs.call (.apply _ hgrown (Likeness.spelled.number _))
    intro _ _ hkept
    apply Likeness.Programs.andThen _ hkept
    intro kept kept' hkept
    exact .done (.ok hkept)
  · intro result result' hresult
    apply Likeness.Programs.done
    apply hresult.map
    intro vs ws hvs
    exact Likeness.spelled.list hvs

/-- Six-sided dice are harvested from the number and from the list with the same nine draws, of
which the last one is the only one left for the second round: its dice find the quota spent when
they should explode. -/
theorem Program.interchange_harvest :
  Likeness.spelled.Programs (harvest (.number (.int 6))) (harvest (.list (integers 6)))
    ∧ SameOutcome Value.Shown (harvest (.number (.int 6))).run (.ofSixes 5)
      (harvest (.list (integers 6))).run (.ofSixes 5)
    ∧ (harvest (.number (.int 6))).draws (.ofSixes 5) = 9
    ∧ (harvest (.list (integers 6))).draws (.ofSixes 5) = 9
  := by
  have halike : Likeness.spelled.Programs (harvest (.number (.int 6)))
      (harvest (.list (integers 6))) := harvest_alike (.integers (.int 6) (by decide))
  obtain ⟨-, hsame, hdraws⟩ := interchange halike (.ofSixes 5)
  have hnine : (harvest (.number (.int 6))).draws (.ofSixes 5) = 9 := by decide +kernel
  exact ⟨halike, hsame, hnine, hdraws ▸ hnine⟩

end Dice
