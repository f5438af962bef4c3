import Dice.Roll

/-!
# Metered calls

The four calls that throw dice have one shape: the operands are checked, the allowance of the call
is taken from the quota, dice are thrown within it, and then the roller, the quota and the history
are settled at once. `metered` is this shape, and each call is equal to its operand check followed
by a metered run of throws.
-/

namespace Dice

/-- What a run of throws comes to: its result, the number of dice thrown for it, its entries in
the history, and the name it assigns to, if there is one. -/
structure Thrown (α : Type) where
  result : α
  count : Nat
  entries : List Entry
  slot : Option (String × Value)

namespace Context

variable {ρ α : Type}

/-- The dice that the call which begins in a context may throw. -/
def allowance (ctx : Context ρ) : Nat :=
  match ctx.quota with
  | none => Play.unlimited
  | some q => q.available.toNat

/-- The context after a run of throws that left the roller `r`. -/
def settle (ctx : Context ρ) (t : Thrown α) (r : ρ) : Context ρ where
  roller := r
  quota := ctx.quota.map (·.charge (.ofNat t.count))
  history := ctx.history.map (t.entries.foldl Array.push ·)
  scope :=
    match t.slot with
    | none => ctx.scope
    | some (name, v) => ctx.scope.set name v

/-- Nothing is allowed only where a quota with nothing left is attached. -/
theorem allowance_eq_zero_iff (ctx : Context ρ) :
  ctx.allowance = 0 ↔ ∃ q, ctx.quota = some q ∧ q.available = 0
  := by
  unfold allowance
  split
  · rename_i h
    simp [h, Play.unlimited, UInt64.size]
  · rename_i q h
    simp [h, ← UInt64.toNat_inj]

end Context

namespace Play

variable {ρ α β : Type}

/-- A call that makes a run of throws within its allowance, and fails where there is none. -/
def metered (run : Nat → ρ → Thrown α × ρ) : Play ρ α := fun ctx =>
  if ctx.allowance = 0 then .error .quotaExhausted ctx
  else
    let (t, r) := run ctx.allowance ctx.roller
    .ok t.result (ctx.settle t r)

/-! ### The steps of a call at a context -/

@[simp]
theorem bind_apply (m : Play ρ α) (k : α → Play ρ β) (ctx : Context ρ) :
  (m >>= k) ctx
    = match m ctx with
      | .ok a ctx => k a ctx
      | .error e ctx => .error e ctx
  := by
  change EStateM.bind m k ctx = _
  rw [EStateM.bind]
  cases m ctx <;> rfl

@[simp]
theorem pure_apply (a : α) (ctx : Context ρ) :
  (pure a : Play ρ α) ctx = .ok a ctx
  := rfl

@[simp]
theorem throw_apply (e : EvalError) (ctx : Context ρ) :
  (throw e : Play ρ α) ctx = .error e ctx
  := rfl

/-- A call may throw its allowance, and fails where there is none. -/
theorem budget_apply (ctx : Context ρ) :
  budget ctx
    = if ctx.allowance = 0 then .error .quotaExhausted ctx else .ok ctx.allowance ctx
  := by
  obtain ⟨r, quota, history, scope⟩ := ctx
  cases quota with
  | none => rfl
  | some q =>
    have hzero : q.available.toNat = 0 ↔ q.available = 0 := by
      rw [← UInt64.toNat_inj, UInt64.toNat_zero]
    have hbudget : budget ⟨r, some q, history, scope⟩
        = (if q.available = 0 then throw .quotaExhausted else pure q.available.toNat : Play ρ Nat)
            ⟨r, some q, history, scope⟩ := rfl
    simp only [Context.allowance, hzero]
    rw [hbudget]
    split <;> rfl

/-- A count asks for a positive number of dice. -/
theorem diceCount_apply (count : Number) (ctx : Context ρ) :
  diceCount count ctx
    = if count.toInt.toInt.toNat = 0 then .error .nonpositiveCount ctx
      else .ok count.toInt.toInt.toNat ctx
  := by
  unfold diceCount
  split <;> rfl

@[simp]
theorem throwing_apply (f : ρ → α × ρ) (ctx : Context ρ) :
  throwing f ctx = .ok (f ctx.roller).1 { ctx with roller := (f ctx.roller).2 }
  := rfl

@[simp]
theorem charge_apply (n : Nat) (ctx : Context ρ) :
  charge n ctx = .ok () { ctx with quota := ctx.quota.map (·.charge (.ofNat n)) }
  := rfl

@[simp]
theorem record_apply (label : Unit → String) (result : List Value) (ctx : Context ρ) :
  record label result ctx
    = .ok () { ctx with history := ctx.history.map (·.push ⟨label (), result⟩) }
  := rfl

@[simp]
theorem modifyScope_apply (f : Scope → Scope) (ctx : Context ρ) :
  modifyScope f ctx = .ok () { ctx with scope := f ctx.scope }
  := rfl

/-- The faces of an operand are those it stands for. -/
theorem facesOf_apply (v : Value) (ctx : Context ρ) :
  facesOf v ctx
    = match Faces.ofValue? v with
      | none => .error (.die .noFaces) ctx
      | some f => .ok f ctx
  := by
  unfold facesOf
  cases Faces.ofValue? v <;> rfl

end Play

/-! ### The runs of throws -/

namespace Thrown

variable {ρ : Type} [Roller ρ]

/-- A number of dice, as far as the limit goes. -/
def many (f : Faces) (requested : Nat) (label : String) (limit : Nat) (r : ρ) :
    Thrown (List Value) × ρ :=
  let (ds, r) := f.drawMany (min requested limit) r
  (⟨ds.map Die.toValue, min requested limit, [⟨label, ds.map Die.toValue⟩], none⟩, r)

/-- One die. -/
def one (f : Faces) (label : String) (_limit : Nat) (r : ρ) : Thrown Die × ρ :=
  let (d, r) := f.draw r
  (⟨d, 1, [⟨label, [d.toValue]⟩], none⟩, r)

/-- Dice until one satisfies a test. -/
def untilHit (f : Faces) (test : Number → Bool) (label : String) (limit : Nat) (r : ρ) :
    Thrown Parted × ρ :=
  let (ds, hit, r) := f.drawUntil test limit r
  let misses := ds.map Die.toValue
  match hit with
  | some d =>
    (⟨⟨misses, d.toValue⟩, ds.length + 1,
      [⟨label, misses⟩, ⟨"Killed above roll:", [d.toValue]⟩], none⟩, r)
  | none => (⟨⟨misses, .number .zero⟩, ds.length, [⟨label, misses⟩], none⟩, r)

/-- Dice in the place of the elements that satisfy a test. -/
def anew (how : Redraw) (test : Number → Bool) (vs : List Value) (label : String) (limit : Nat)
    (r : ρ) : Thrown (List Value) × ρ :=
  let (result, count, r) := redrawAll how test vs limit r
  (⟨result, count, [⟨label, result⟩], none⟩, r)

end Thrown

namespace Play

variable {ρ : Type} [Roller ρ]

/-- `roll` checks the count, then the faces, and then makes a metered run. -/
theorem roll_eq (count : Number) (faces : Value) :
  (roll count faces : Play ρ (List Value))
    = if count.toInt.toInt.toNat = 0 then throw .nonpositiveCount
      else
        match Faces.ofValue? faces with
        | none => throw (.die .noFaces)
        | some f =>
          metered (Thrown.many f count.toInt.toInt.toNat
            (.ofList (count.chars ++ 'd' :: faces.codeChars)))
  := by
  funext ctx
  simp only [roll, bind_apply, diceCount_apply]
  by_cases hcount : count.toInt.toInt.toNat = 0
  · simp only [if_pos hcount, throw_apply]
  · simp only [if_neg hcount, facesOf_apply]
    cases Faces.ofValue? faces with
    | none => rfl
    | some f =>
      simp only [budget_apply, metered]
      by_cases hzero : ctx.allowance = 0
      · simp only [if_pos hzero]
      · simp only [if_neg hzero]
        rfl

/-- `rollOne` checks the faces and then makes a metered run. -/
theorem rollOne_eq (faces : Value) :
  (rollOne faces : Play ρ Die)
    = match Faces.ofValue? faces with
      | none => throw (.die .noFaces)
      | some f => metered (Thrown.one f (.ofList ('1' :: 'd' :: faces.codeChars)))
  := by
  funext ctx
  simp only [rollOne, bind_apply, facesOf_apply]
  cases Faces.ofValue? faces with
  | none => rfl
  | some f =>
    simp only [budget_apply, metered]
    by_cases hzero : ctx.allowance = 0
    · simp only [if_pos hzero]
    · simp only [if_neg hzero]
      rfl

/-- `rollUntil` checks the faces and then makes a metered run. -/
theorem rollUntil_eq (faces : Value) (cmp : Comparator) (threshold : Number) :
  (rollUntil faces cmp threshold : Play ρ Parted)
    = match Faces.ofValue? faces with
      | none => throw (.die .noFaces)
      | some f =>
        metered (Thrown.untilHit f (cmp.holds · threshold)
          (.ofList (faces.codeChars ++ 'u' :: (cmp.symbol.toList ++ threshold.chars))))
  := by
  funext ctx
  simp only [rollUntil, bind_apply, facesOf_apply]
  cases Faces.ofValue? faces with
  | none => rfl
  | some f =>
    simp only [budget_apply, metered, Thrown.untilHit]
    by_cases hzero : ctx.allowance = 0
    · simp only [if_pos hzero]
    · simp only [if_neg hzero]
      rcases h : f.drawUntil (cmp.holds · threshold) ctx.allowance ctx.roller with ⟨ds, _ | d, r⟩
      · simp [h, Context.settle]
      · simp [h, Context.settle, Function.comp_def]

/-- `redraw` has no operand to check: it is a metered run. -/
theorem redraw_eq
    (vs : List Value) (cmp : Comparator) (threshold : Number) (how : Redraw) :
  (redraw vs cmp threshold how : Play ρ (List Value))
    = metered (Thrown.anew how (cmp.holds · threshold) vs
        (.ofList ((Value.list vs).codeChars
          ++ (how.symbol ++ cmp.symbol).toList ++ threshold.chars)))
  := by
  funext ctx
  simp only [redraw, bind_apply, budget_apply, metered]
  by_cases hzero : ctx.allowance = 0
  · simp only [if_pos hzero]
  · simp only [if_neg hzero]
    rfl

end Play

end Dice
