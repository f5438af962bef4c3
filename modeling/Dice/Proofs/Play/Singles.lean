import Dice.Proofs.Play.Failure
import Dice.Proofs.Play.Gives
import Dice.Proofs.Quota.Accounting

/-!
# Rolls and single throws

A roll of several dice throws what as many calls of their own throw: the dice are the same, and so
are the roller, the quota and the scope that they leave. The roll charges all of its dice at once,
and the calls charge them one by one. What is charged adds up, and while a call has dice left, the
call after it has all of them but one. A roll of one die is a single throw also in what it records,
and in how it fails.
-/

namespace Dice

/-! ### Runs of throws one after another -/

namespace Context

variable {ρ α β : Type} {ctx : Context ρ}

/-- A run of throws within the allowance leaves the rest of it to the next call. -/
theorem le_allowance_settle {t : Thrown α} {n : Nat} (h : t.count + n ≤ ctx.allowance)
    (ht : 0 < t.count) (r : ρ) :
  n ≤ (ctx.settle t r).allowance
  := by
  obtain ⟨roller, quota, history, scope⟩ := ctx
  cases quota with
  | none => exact Nat.le_trans (Nat.le_add_left n t.count) h
  | some q => exact Quota.le_available_charge h ht

/-- Nothing is settled where nothing was thrown. -/
theorem settle_nothing (a : α) :
  ctx.settle ⟨a, 0, [], none⟩ ctx.roller = ctx
  := by
  obtain ⟨roller, quota, history, scope⟩ := ctx
  have hquota : quota.map (·.charge (.ofNat 0)) = quota := by
    cases quota with
    | none => rfl
    | some q => exact congrArg some q.charge_zero
  have hhistory : history.map (([] : List Entry).foldl Array.push ·) = history := by
    cases history <;> rfl
  simp only [settle, hquota, hhistory]

/-- Two runs of throws that assign nothing settle like one of all their dice and entries. -/
theorem settle_settle {t : Thrown α} {t' : Thrown β} (ht : t.slot = none) (ht' : t'.slot = none)
    (hcount : t.count + t'.count < UInt64.size) (r r' : ρ) :
  (ctx.settle t r).settle t' r'
    = ctx.settle ⟨t'.result, t.count + t'.count, t.entries ++ t'.entries, none⟩ r'
  := by
  simp only [settle, ht, ht', Option.map_map, List.foldl_append]
  congr 2
  funext q
  exact q.charge_charge hcount

/-- A call may throw no more dice than a word counts. -/
theorem allowance_lt (ctx : Context ρ) :
  ctx.allowance < UInt64.size
  := by
  rw [allowance]
  split
  · decide
  · rename_i q hq
    exact q.available.toNat_lt

end Context

/-! ### Single throws -/

/-- A number of dice, each with an entry of its own. -/
def Thrown.each {ρ : Type} [Roller ρ] (f : Faces) (n : Nat) (label : String) (r : ρ) :
    Thrown (List Die) × ρ :=
  let (ds, r) := f.drawMany n r
  (⟨ds, n, ds.map fun d => ⟨label, [d.toValue]⟩, none⟩, r)

namespace Play

variable {ρ : Type} [Roller ρ]

/-- Throws a number of dice in as many calls. -/
def rollEach (faces : Value) : Nat → Play ρ (List Die)
  | 0 => return []
  | n + 1 => do
    let d ← rollOne faces
    let ds ← rollEach faces n
    return d :: ds

/-- What a single throw is recorded as. -/
def singleLabel (faces : Value) : String :=
  .ofList ('1' :: 'd' :: faces.codeChars)

/-- A roll of one die is a single throw, also in its entry of the history and in its errors. -/
theorem roll_one_apply (faces : Value) (ctx : Context ρ) :
  roll (.int 1) faces ctx
    = match rollOne faces ctx with
      | .ok d ctx' => .ok [d.toValue] ctx'
      | .error e ctx' => .error e ctx'
  := by
  rw [roll_eq, rollOne_eq, if_neg (by decide)]
  cases Faces.ofValue? faces with
  | none => rfl
  | some f =>
    by_cases hzero : ctx.allowance = 0
    · simp only [metered, if_pos hzero]
    · have hmin : min (Number.int 1).toInt.toInt.toNat ctx.allowance = 1 :=
        Nat.min_eq_left (Nat.pos_of_ne_zero hzero)
      simp only [metered, if_neg hzero, Thrown.many, hmin]
      rfl

section

variable {faces : Value} {f : Faces} (hf : Faces.ofValue? faces = some f)

include hf

theorem rollOne_apply {ctx : Context ρ} (h : ctx.allowance ≠ 0) :
  rollOne faces ctx
    = .ok (f.draw ctx.roller).1
        (ctx.settle (Thrown.one f (singleLabel faces) ctx.allowance ctx.roller).1
          (f.draw ctx.roller).2)
  := by
  rw [rollOne_eq, hf]
  exact if_neg h

theorem roll_apply {count : Number} (hcount : 1 ≤ count.toInt) {ctx : Context ρ}
    (h : ctx.allowance ≠ 0) :
  roll count faces ctx
    = .ok ((f.drawMany (min count.toInt.toInt.toNat ctx.allowance) ctx.roller).1.map Die.toValue)
        (ctx.settle
          (Thrown.many f count.toInt.toInt.toNat (.ofList (count.chars ++ 'd' :: faces.codeChars))
            ctx.allowance ctx.roller).1
          (f.drawMany (min count.toInt.toInt.toNat ctx.allowance) ctx.roller).2)
  := by
  have hpos : count.toInt.toInt.toNat ≠ 0 := by
    rw [ne_eq, Number.toNat_toInt_eq_zero_iff, Int64.not_lt]
    exact hcount
  rw [roll_eq, if_neg hpos, hf]
  exact if_neg h

/-- As many calls as the first of them may throw dice do not fail, and settle like one run of
throws. -/
theorem rollEach_apply {n : Nat} {ctx : Context ρ} (h : n ≤ ctx.allowance) :
  rollEach faces n ctx
    = .ok (f.drawMany n ctx.roller).1
        (ctx.settle (Thrown.each f n (singleLabel faces) ctx.roller).1
          (f.drawMany n ctx.roller).2)
  := by
  induction n generalizing ctx with
  | zero =>
    change EStateM.Result.ok [] ctx = .ok [] _
    congr 1
    exact (Context.settle_nothing []).symm
  | succ n ih =>
    have hrest : n ≤ (ctx.settle (Thrown.one f (singleLabel faces) ctx.allowance ctx.roller).1
        (f.draw ctx.roller).2).allowance := by
      apply Context.le_allowance_settle _ Nat.one_pos
      rw [Nat.add_comm]
      exact h
    have hsize : 1 + n < UInt64.size := by
      have hlt := ctx.allowance_lt
      omega
    rw [rollEach, bind_apply, rollOne_apply hf (Nat.ne_zero_of_lt h)]
    simp only [bind_apply, ih hrest, pure_apply]
    rw [Context.settle_settle rfl rfl hsize, Nat.add_comm]
    rfl

/-- Let a positive count and an operand with faces be given, and a context in which dice may be
thrown. A roll throws as many dice as are counted, as far as they are allowed, and throws them from
the faces. As many single throws from the same context do not fail, and throw the same dice. Both
leave the same roller, the same quota and the same scope. A roll of one die and a single throw, from
whatever operand and in whatever context, come to the same die and the same context, or to the same
error. -/
theorem roll_singles {count : Number} (hcount : 1 ≤ count.toInt) {ctx : Context ρ}
    (h : ctx.allowance ≠ 0) :
  (∃ dice together singly, roll count faces ctx = .ok (dice.map Die.toValue) together
      ∧ rollEach faces (min count.toInt.toInt.toNat ctx.allowance) ctx = .ok dice singly
      ∧ dice.length = min count.toInt.toInt.toNat ctx.allowance
      ∧ (∀ d ∈ dice, d.faces = f)
      ∧ together.roller = singly.roller ∧ together.quota = singly.quota
      ∧ together.scope = singly.scope)
    ∧ ∀ (faces : Value) (ctx : Context ρ), roll (.int 1) faces ctx
        = match rollOne faces ctx with
          | .ok d ctx' => .ok [d.toValue] ctx'
          | .error e ctx' => .error e ctx'
  := by
  constructor
  · refine ⟨_, _, _, roll_apply hf hcount h, rollEach_apply hf (Nat.min_le_right _ _),
      f.length_drawMany _ _, ?_, rfl, rfl, rfl⟩
    intro d hd
    obtain ⟨i, rfl⟩ := f.landing_drawMany _ _ d hd
    rfl
  · exact roll_one_apply

end

/-- A context in which two dice are left of five. -/
def rationed : Context Replay :=
  (Context.start ⟨[4, 1], by decide, 0⟩).withQuota ⟨3, 5, 3⟩

/-- Of four dice, a roll throws the two that are left, and so do two single throws. -/
theorem roll_rationed :
  (1 ≤ (Number.int 4).toInt ∧ Faces.ofValue? (.number (.int 6)) = some (.upTo 6 (by decide))
      ∧ rationed.allowance ≠ 0)
    ∧ ∃ dice together singly, roll (.int 4) (.number (.int 6)) rationed
          = .ok (dice.map Die.toValue) together
        ∧ rollEach (.number (.int 6)) 2 rationed = .ok dice singly ∧ dice.length = 2
        ∧ together.roller = singly.roller ∧ together.quota = singly.quota
  := by
  have hcount : 1 ≤ (Number.int 4).toInt := by decide
  have hfaces : Faces.ofValue? (.number (.int 6)) = some (.upTo 6 (by decide)) := rfl
  have hleft : rationed.allowance ≠ 0 := by decide
  refine ⟨⟨hcount, hfaces, hleft⟩, ?_⟩
  obtain ⟨dice, together, singly, hroll, heach, hlength, -, hroller, hquota, -⟩ :=
    (roll_singles hfaces hcount hleft).1
  have htwo : min (Number.int 4).toInt.toInt.toNat rationed.allowance = 2 := by decide
  rw [htwo] at heach hlength
  exact ⟨dice, together, singly, hroll, heach, hlength, hroller, hquota⟩

end Play

end Dice
