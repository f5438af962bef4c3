import Dice.Proofs.Operator.Confinement
import Dice.Proofs.Play.Call

/-!
# What calls give

Whatever a call comes to, records or assigns is made of three kinds of values: elements of its
operand, dice that landed on the faces it throws, and the zero that stands for no die.
-/

namespace Dice

/-! ### Landings -/

namespace Faces

variable {ρ : Type} [Roller ρ] (f : Faces)

/-- A die that landed on one of the faces. -/
def Landing (d : Die) : Prop :=
  ∃ i, d = .landed f i

theorem landing_draw (r : ρ) :
  f.Landing (f.draw r).1
  := ⟨_, rfl⟩

theorem landing_drawMany (n : Nat) (r : ρ) :
  ∀ d ∈ (f.drawMany n r).1, f.Landing d
  := by
  induction n generalizing r with
  | zero =>
    intro d hd
    cases hd
  | succ n ih =>
    intro d hd
    rcases List.mem_cons.1 hd with rfl | hd
    · apply landing_draw
    · exact ih _ d hd

/-- The misses and the hit of a run of throws. -/
theorem landing_drawUntil (test : Number → Bool) (n : Nat) (r : ρ) :
  (∀ d ∈ (f.drawUntil test n r).1, f.Landing d)
    ∧ ∀ d ∈ (f.drawUntil test n r).2.1, f.Landing d
  := by
  induction n generalizing r with
  | zero =>
    constructor
    · intro d hd
      cases hd
    · intro d hd
      cases hd
  | succ n ih =>
    have hdraw := f.landing_draw r
    rcases hd : f.draw r with ⟨d, r₁⟩
    rw [hd] at hdraw
    by_cases hit : test d.outcome
    · simp only [drawUntil, hd, hit, if_true]
      constructor
      · intro e he
        cases he
      · rintro e ⟨rfl⟩
        exact hdraw
    · obtain ⟨hmisses, hfound⟩ := ih r₁
      simp only [drawUntil, hd, hit, Bool.false_eq_true, if_false]
      refine ⟨?_, hfound⟩
      intro e he
      rcases List.mem_cons.1 he with rfl | he
      · exact hdraw
      · exact hmisses e he

theorem landing_drawWhile (test : Number → Bool) (n : Nat) (r : ρ) :
  ∀ d ∈ (f.drawWhile test n r).1, f.Landing d
  := by
  induction n generalizing r with
  | zero =>
    intro d hd
    cases hd
  | succ n ih =>
    by_cases again : test (f.draw r).1.outcome
    · simp only [drawWhile, again, if_true]
      intro d hd
      rcases List.mem_cons.1 hd with rfl | hd
      · apply landing_draw
      · exact ih _ d hd
    · simp only [drawWhile, again, Bool.false_eq_true, if_false]
      intro d hd
      obtain rfl := List.mem_singleton.1 hd
      apply landing_draw

end Faces

/-- A redraw consists of elements and of dice that landed on the faces of those that satisfy the
test. -/
theorem mem_redrawAll {ρ : Type} [Roller ρ]
    (how : Redraw) (test : Number → Bool) (vs : List Value) (n : Nat) (r : ρ) :
  ∀ v ∈ (redrawAll how test vs n r).1,
    v ∈ vs ∨ ∃ w ∈ vs, test w.total ∧ ∃ i, v = (Die.landed w.redrawFaces i).toValue
  := by
  induction vs generalizing n r with
  | nil =>
    intro v hv
    cases hv
  | cons w vs ih =>
    have hrest : ∀ n (r : ρ), ∀ v ∈ (redrawAll how test vs n r).1,
        v ∈ w :: vs ∨ ∃ u ∈ w :: vs, test u.total
          ∧ ∃ i, v = (Die.landed u.redrawFaces i).toValue := by
      intro n r v hv
      rcases ih n r v hv with hv | ⟨u, hu, hit, hlanded⟩
      · left
        exact List.mem_cons_of_mem w hv
      · right
        exact ⟨u, List.mem_cons_of_mem w hu, hit, hlanded⟩
    intro v hv
    by_cases hit : test w.total
    · simp only [redrawAll, hit, if_true] at hv
      rcases List.mem_append.1 hv with hv | hv
      · rcases List.mem_append.1 hv with hv | hv
        · left
          split at hv
          · obtain rfl := List.mem_singleton.1 hv
            apply List.mem_cons_self
          · cases hv
        · right
          obtain ⟨d, hd, rfl⟩ := List.mem_map.1 hv
          obtain ⟨i, rfl⟩ := w.redrawFaces.landing_drawWhile _ n r d hd
          exact ⟨w, List.mem_cons_self, hit, i, rfl⟩
      · exact hrest _ _ v hv
    · simp only [redrawAll, hit, Bool.false_eq_true, if_false] at hv
      rcases List.mem_cons.1 hv with rfl | hv
      · left
        apply List.mem_cons_self
      · exact hrest _ _ v hv

/-! ### Made values -/

/-- The values of a parted result: what is returned, and what is set aside. -/
def Parted.values (p : Parted) : List Value :=
  p.value ++ p.side.elements

/-- The values that a result consists of. -/
def Step.Result.values : Step.Result → List Value
  | value v => v.elements
  | parted p => p.values
  | binding v? => v?.toList
  | entries es => es.flatMap Entry.result
  | _ => []

/-- A run of throws whose result, entries and assignment consist of values of some kind. -/
structure Thrown.Made {α : Type} (P : Value → Prop) (values : α → List Value) (t : Thrown α) :
    Prop where
  result (v : Value) : v ∈ values t.result → P v
  entries (e : Entry) : e ∈ t.entries → ∀ v ∈ e.result, P v
  slot (name : String) (w : Value) : t.slot = some (name, w) → ∀ v ∈ w.elements, P v

/-- What is made of some values is made of more of them. -/
theorem Thrown.Made.mono {α : Type} {P Q : Value → Prop} {values : α → List Value} {t : Thrown α}
    (h : t.Made P values) (hPQ : ∀ v, P v → Q v) :
  t.Made Q values
  where
  result v hv := hPQ v (h.result v hv)
  entries e he v hv := hPQ v (h.entries e he v hv)
  slot name w hw v hv := hPQ v (h.slot name w hw v hv)

/-- An effect whose results, entries and assignments consist of values of some kind. -/
def Effect.Made {ρ : Type} (P : Value → Prop) : Effect ρ → Prop
  | throws run => ∀ limit r, (run limit r).1.Made P Step.Result.values
  | sets _ parted => ∀ v ∈ parted.values, P v

namespace Thrown

variable {ρ α : Type} [Roller ρ] {P : Value → Prop} {f : Faces}

omit [Roller ρ] in
theorem made_of_landing (hf : ∀ i, P (Die.landed f i).toValue) {ds : List Die}
    (hds : ∀ d ∈ ds, f.Landing d) :
  ∀ v ∈ ds.map Die.toValue, P v
  := by
  intro v hv
  obtain ⟨d, hd, rfl⟩ := List.mem_map.1 hv
  obtain ⟨i, rfl⟩ := hds d hd
  exact hf i

omit [Roller ρ] in
/-- A run that records what it returns and assigns nothing. -/
theorem made_of_result {values : α → List Value} {a : α} {count : Nat} {label : String}
    (ha : ∀ v ∈ values a, P v) :
  (⟨a, count, [⟨label, values a⟩], none⟩ : Thrown α).Made P values
  := by
  refine ⟨ha, ?_, ?_⟩
  · intro e he
    obtain rfl := List.mem_singleton.1 he
    exact ha
  · intro name w h
    cases h

theorem many_made (hf : ∀ i, P (Die.landed f i).toValue) (requested : Nat) (label : String)
    (limit : Nat) (r : ρ) :
  (many f requested label limit r).1.Made P id
  := by
  apply made_of_result
  exact made_of_landing hf (f.landing_drawMany _ r)

theorem one_made (hf : ∀ i, P (Die.landed f i).toValue) (label : String) (limit : Nat) (r : ρ) :
  (one f label limit r).1.Made P (fun d => [d.toValue])
  := by
  apply made_of_result
  exact made_of_landing hf (List.forall_mem_singleton.2 (f.landing_draw r))

theorem untilHit_made (hzero : P (.number .zero)) (hf : ∀ i, P (Die.landed f i).toValue)
    (test : Number → Bool) (label : String) (limit : Nat) (r : ρ) :
  (untilHit f test label limit r).1.Made P Parted.values
  := by
  obtain ⟨hmisses, hhit⟩ := f.landing_drawUntil test limit r
  simp only [untilHit]
  rcases hd : f.drawUntil test limit r with ⟨ds, found, r₁⟩
  rw [hd] at hmisses hhit
  have hds := made_of_landing hf hmisses
  cases found with
  | none =>
    refine ⟨?_, ?_, ?_⟩
    · intro v hv
      rcases List.mem_append.1 hv with hv | hv
      · exact hds v hv
      · obtain rfl := List.mem_singleton.1 hv
        exact hzero
    · intro e he
      obtain rfl := List.mem_singleton.1 he
      exact hds
    · intro name w h
      cases h
  | some d =>
    obtain ⟨i, rfl⟩ := hhit d rfl
    have hside : ∀ v ∈ [(Die.landed f i).toValue], P v := List.forall_mem_singleton.2 (hf i)
    refine ⟨?_, ?_, ?_⟩
    · intro v hv
      rcases List.mem_append.1 hv with hv | hv
      · exact hds v hv
      · exact hside v hv
    · intro e he
      rcases List.mem_cons.1 he with rfl | he
      · exact hds
      · obtain rfl := List.mem_singleton.1 he
        exact hside
    · intro name w h
      cases h

theorem anew_made {how : Redraw} {test : Number → Bool} {vs : List Value}
    (hvs : ∀ v ∈ vs, P v)
    (hf : ∀ v ∈ vs, test v.total → ∀ i, P (Die.landed v.redrawFaces i).toValue) (label : String)
    (limit : Nat) (r : ρ) :
  (anew how test vs label limit r).1.Made P id
  := by
  apply made_of_result
  intro v hv
  rcases mem_redrawAll how test vs limit r v hv with hv | ⟨w, hw, hit, i, rfl⟩
  · exact hvs v hv
  · exact hf w hw hit i

omit [Roller ρ] in
/-- Handing on the result of a run as a value keeps what it is made of. -/
theorem Made.map {values : α → List Value} {g : α → Step.Result} {t : Thrown α}
    (h : t.Made P values) (hg : ∀ a, (g a).values = values a) :
  (t.map g).Made P Step.Result.values
  := by
  refine ⟨?_, h.entries, h.slot⟩
  intro v hv
  rw [Thrown.map, hg] at hv
  exact h.result v hv

omit [Roller ρ] in
/-- Assigning what a run sets aside keeps what it is made of. -/
theorem Made.publish {t : Thrown Parted} (h : t.Made P Parted.values) (name : String) :
  (t.publish name).Made P Step.Result.values
  := by
  refine ⟨?_, h.entries, ?_⟩
  · intro v hv
    exact h.result v (List.mem_append_left _ hv)
  · intro name' w heq v hv
    cases heq
    exact h.result v (List.mem_append_right _ hv)

omit [Roller ρ] in
/-- An effect is made of what its runs are made of. -/
theorem made_throws {run : Nat → ρ → Thrown α × ρ} {k : Thrown α → Thrown Step.Result}
    (h : ∀ limit r, (k (run limit r).1).Made P Step.Result.values) :
  (Effect.throws fun limit r => (k (run limit r).1, (run limit r).2)).Made P
  := h

end Thrown

/-! ### Calls -/

namespace Call

/-- The faces that a call throws. -/
def faces : Call → List Faces
  | roll _ faces => (Faces.ofValue? faces).toList
  | rollOne faces => (Faces.ofValue? faces).toList
  | rollUntil faces _ _ => (Faces.ofValue? faces).toList
  | redraw vs cmp threshold _ =>
    (vs.filter fun v => cmp.holds v.total threshold).map Value.redrawFaces
  | apply .roll _ right => (Faces.ofValue? right).toList
  | apply (.rollUntil _) left _ => (Faces.ofValue? left).toList
  | apply (.redraw _ cmp) left right =>
    (left.elements.filter fun v => cmp.holds v.total right.total).map Value.redrawFaces
  | apply _ _ _ => []
  | applyOne .roll operand => (Faces.ofValue? operand).toList
  | applyOne _ _ => []

/-- The elements that a call redraws or chooses from. -/
def elements : Call → List Value
  | redraw vs _ _ _ => vs
  | apply (.redraw _ _) left _ => left.elements
  | apply (.ranked _ _) left _ => left.elements
  | apply (.filtered _ _) left _ => left.elements
  | _ => []

/-- The values that the results of a call consist of: the elements it has, dice that landed on the
faces it throws, and the zero that stands for no die. -/
inductive Gives (c : Call) : Value → Prop
  | element {v : Value} : v ∈ c.elements → Gives c v
  | landed {f : Faces} (i : Fin f.count) : f ∈ c.faces → Gives c (Die.landed f i).toValue
  | zero : Gives c (.number .zero)

variable {ρ : Type} [Roller ρ] {P : Value → Prop}

omit [Roller ρ] in
theorem made_of_throwing
    {faces : Value} {run : Faces → Nat → ρ → Thrown Step.Result × ρ}
    (h : ∀ f, Faces.ofValue? faces = some f → (Effect.throws (run f)).Made P)
    {effect : Effect ρ} (heq : throwing faces run = .ok effect) :
  effect.Made P
  := by
  unfold throwing at heq
  cases hf : Faces.ofValue? faces with
  | none =>
    rw [hf] at heq
    cases heq
  | some f =>
    rw [hf] at heq
    cases heq
    exact h f hf

theorem made_of_rollEffect
    {count : Number} {faces : Value}
    (hfaces : ∀ f ∈ (Faces.ofValue? faces).toList, ∀ i, P (Die.landed f i).toValue)
    {effect : Effect ρ} (heq : rollEffect count faces = .ok effect) :
  effect.Made P
  := by
  unfold rollEffect at heq
  by_cases hcount : count.toInt.toInt.toNat = 0
  · rw [if_pos hcount] at heq
    cases heq
  · rw [if_neg hcount] at heq
    apply made_of_throwing _ heq
    intro f hf
    apply Thrown.made_throws
    intro limit r
    apply (Thrown.many_made (hfaces f (Option.mem_toList.2 hf)) _ _ limit r).map
    intro vs
    rfl

theorem made_of_rollOneEffect
    {faces : Value}
    (hfaces : ∀ f ∈ (Faces.ofValue? faces).toList, ∀ i, P (Die.landed f i).toValue)
    {effect : Effect ρ} (heq : rollOneEffect faces = .ok effect) :
  effect.Made P
  := by
  apply made_of_throwing _ heq
  intro f hf
  apply Thrown.made_throws
  intro limit r
  apply (Thrown.one_made (hfaces f (Option.mem_toList.2 hf)) _ limit r).map
  intro d
  rfl

theorem made_of_untilEffect
    {faces : Value} {cmp : Comparator} {threshold : Number}
    {k : Thrown Parted → Thrown Step.Result} (hzero : P (.number .zero))
    (hfaces : ∀ f ∈ (Faces.ofValue? faces).toList, ∀ i, P (Die.landed f i).toValue)
    (hk : ∀ t : Thrown Parted, t.Made P Parted.values → (k t).Made P Step.Result.values)
    {effect : Effect ρ} (heq : untilEffect faces cmp threshold k = .ok effect) :
  effect.Made P
  := by
  apply made_of_throwing _ heq
  intro f hf
  apply Thrown.made_throws
  intro limit r
  exact hk _ (Thrown.untilHit_made hzero (hfaces f (Option.mem_toList.2 hf)) _ _ limit r)

theorem made_redrawEffect
    {vs : List Value} {cmp : Comparator} {threshold : Number} {how : Redraw}
    (hvs : ∀ v ∈ vs, P v)
    (hfaces : ∀ f ∈ (vs.filter fun v => cmp.holds v.total threshold).map Value.redrawFaces,
      ∀ i, P (Die.landed f i).toValue) :
  (redrawEffect vs cmp threshold how : Effect ρ).Made P
  := by
  have hlanded : ∀ v ∈ vs, cmp.holds v.total threshold →
      ∀ i, P (Die.landed v.redrawFaces i).toValue := by
    intro v hv hit
    apply hfaces
    exact List.mem_map_of_mem (List.mem_filter.2 ⟨hv, hit⟩)
  apply Thrown.made_throws
  intro limit r
  apply (Thrown.anew_made hvs hlanded _ limit r).map
  intro vs
  rfl

theorem made_of_interleaved
    {parted : Parted} {vs : List Value} (hvs : ∀ v ∈ vs, P v)
    (h : ∃ dropped, parted.side = .list dropped ∧ Interleaved parted.value dropped vs) :
  ∀ v ∈ parted.values, P v
  := by
  obtain ⟨dropped, hside, hinterleaved⟩ := h
  intro v hv
  rw [Parted.values, hside] at hv
  rcases List.mem_append.1 hv with hv | hv
  · exact hvs v (hinterleaved.mem_of_left hv)
  · exact hvs v (hinterleaved.swap.mem_of_left hv)

/-- What a call comes to, records and assigns consists of values that it gives. -/
theorem made_of_effect
    {c : Call} {effect : Effect ρ} (heq : c.effect = .ok effect) :
  effect.Made c.Gives
  := by
  have hfaces : ∀ f ∈ c.faces, ∀ i, c.Gives (Die.landed f i).toValue := fun f hf i => .landed i hf
  have helements : ∀ v ∈ c.elements, c.Gives v := fun v hv => .element hv
  cases c with
  | roll count faces => exact made_of_rollEffect hfaces heq
  | rollOne faces => exact made_of_rollOneEffect hfaces heq
  | rollUntil faces cmp threshold =>
    apply made_of_untilEffect .zero hfaces _ heq
    intro t ht
    apply ht.map
    intro p
    rfl
  | redraw vs cmp threshold how =>
    cases heq
    apply made_redrawEffect helements hfaces
  | apply op left right =>
    cases op with
    | roll => exact made_of_rollEffect hfaces heq
    | rollUntil cmp =>
      apply made_of_untilEffect .zero hfaces _ heq
      intro t ht
      apply ht.publish
    | redraw how cmp =>
      cases heq
      apply made_redrawEffect helements hfaces
    | ranked action rank =>
      obtain ⟨parted, hparted, rfl⟩ := of_rankedEffect heq
      apply made_of_interleaved helements (Choice.interleaved_of_byCount? hparted)
    | filtered action cmp =>
      cases action with
      | keep =>
        cases heq
        apply made_of_interleaved helements (Choice.byComparison_interleaved _ _ _)
      | drop =>
        cases heq
        apply made_of_interleaved helements (Choice.byComparison_interleaved _ _ _)
  | applyOne op operand =>
    cases op with
    | roll => exact made_of_rollOneEffect hfaces heq
    | _ => cases heq

end Call

end Dice
