import Dice.Proofs.Quota.Accounting
import Mathlib.Algebra.GroupWithZero.Nat

/-!
# Saturation

A quota counts what is charged to it in words, which stop at the greatest one. No limit is greater
than that, so what is available is the same as if it counted in natural numbers. Charges therefore
add up, in whatever parts and order they come, and what is available never grows by them.
-/

namespace Dice.Quota

/-! ### Changes of a quota -/

/-- What is done to a quota. -/
inductive Change where
  | charge (n : UInt64)
  | reset
deriving DecidableEq

/-- The quota after a change. -/
def change (q : Quota) : Change → Quota
  | .charge n => q.charge n
  | .reset => q.reset

/-- The quota after some changes, the first one first. -/
def changes (q : Quota) (cs : List Change) : Quota :=
  cs.foldl change q

/-- The dice owed after a change, in a count without a bound. -/
def Change.owed (n : Nat) : Change → Nat
  | charge m => n + m.toNat
  | reset => 0

/-- The sum of what is charged by some changes since the last reset, or else since the first of
them. -/
def owed (cs : List Change) : Nat :=
  cs.foldl Change.owed 0

/-- The quota after some charges. -/
def chargeAll (q : Quota) (ns : List UInt64) : Quota :=
  ns.foldl charge q

/-- A natural number as a word, or the greatest word if it is no word. -/
def word (n : Nat) : UInt64 :=
  .ofNat (min n (UInt64.size - 1))

theorem toNat_word (n : Nat) :
  (word n).toNat = min n (UInt64.size - 1)
  := by
  apply UInt64.toNat_ofNat_of_lt'
  exact Nat.lt_of_le_of_lt (Nat.min_le_right n _) (by decide)

/-! ### Counting without a bound -/

/-- A quota with some limits has counted a number of dice, as far as a word can. -/
structure Owes (q : Quota) (perCall overall : UInt64) (n : Nat) : Prop where
  perCall_eq : q.perCall = perCall
  overall_eq : q.overall = overall
  used_eq : q.used.toNat = min n (UInt64.size - 1)

theorem owes_fresh (perCall overall : UInt64) :
  (fresh perCall overall).Owes perCall overall 0
  := ⟨rfl, rfl, rfl⟩

theorem owes_used (q : Quota) :
  q.Owes q.perCall q.overall q.used.toNat
  := by
  refine ⟨rfl, rfl, ?_⟩
  have hused := q.used.toNat_lt
  rw [UInt64.size]
  omega

namespace Owes

variable {q : Quota} {perCall overall : UInt64} {n : Nat}

theorem charge (h : q.Owes perCall overall n) (m : UInt64) :
  (q.charge m).Owes perCall overall (n + m.toNat)
  := by
  refine ⟨h.perCall_eq, h.overall_eq, ?_⟩
  rw [Quota.charge, toNat_saturatingAdd, h.used_eq]
  omega

theorem change (h : q.Owes perCall overall n) (c : Change) :
  (q.change c).Owes perCall overall (c.owed n)
  := by
  cases c with
  | charge m => exact h.charge m
  | reset => exact ⟨h.perCall_eq, h.overall_eq, rfl⟩

theorem changes (h : q.Owes perCall overall n) (cs : List Change) :
  (q.changes cs).Owes perCall overall (cs.foldl Change.owed n)
  := by
  induction cs generalizing q n with
  | nil => exact h
  | cons c cs ih => exact ih (h.change c)

theorem chargeAll (h : q.Owes perCall overall n) (ns : List UInt64) :
  (q.chargeAll ns).Owes perCall overall (n + (ns.map UInt64.toNat).sum)
  := by
  induction ns generalizing q n with
  | nil => exact h
  | cons m ns ih =>
    have hrest := ih (h.charge m)
    rwa [Nat.add_assoc] at hrest

/-- What is available is counted without a bound, as the limit is a word. -/
theorem available (h : q.Owes perCall overall n) :
  q.available.toNat = min perCall.toNat (overall.toNat - n)
  := by
  have hlimit := overall.toNat_lt
  rw [toNat_available, h.perCall_eq, h.overall_eq, h.used_eq, UInt64.size]
  omega

/-- Counts that are the same as far as a word can tell make the same quota. -/
theorem eq_of_min {q' : Quota} {n' : Nat} (h : q.Owes perCall overall n)
    (h' : q'.Owes perCall overall n') (heq : min n (UInt64.size - 1) = min n' (UInt64.size - 1)) :
  q = q'
  := by
  have hused : q.used = q'.used := by
    rw [← UInt64.toNat_inj, h.used_eq, h'.used_eq, heq]
  calc q = ⟨q.perCall, q.overall, q.used⟩ := rfl
    _ = ⟨q'.perCall, q'.overall, q'.used⟩ := by
        rw [h.perCall_eq, h.overall_eq, hused, h'.perCall_eq, h'.overall_eq]
    _ = q' := rfl

end Owes

/-! ### Charges in parts -/

/-- Parts of a charge, in any order, are charged like their sum. -/
theorem chargeAll_perm (q : Quota) {ns ms : List UInt64} (h : ms.Perm ns) :
  q.chargeAll ms = q.charge (word (ns.map UInt64.toNat).sum)
  := by
  apply (q.owes_used.chargeAll ms).eq_of_min (q.owes_used.charge _)
  rw [toNat_word, (h.map UInt64.toNat).sum_nat]
  omega

/-- Charges leave no more available than there was. -/
theorem available_chargeAll_le (q : Quota) (ns : List UInt64) :
  (q.chargeAll ns).available ≤ q.available
  := by
  rw [UInt64.le_iff_toNat_le, (q.owes_used.chargeAll ns).available, toNat_available]
  omega

/-- After any charges and resets, a quota has counted the sum of what was charged since the last
reset, up to the greatest word, and what is available is what this sum, without a bound, leaves of
the limits. Charging in parts, in any order, is charging the sum, and what is available does not
grow by charges. -/
theorem saturation_unobservable (perCall overall : UInt64) :
  (∀ cs : List Change,
      ((fresh perCall overall).changes cs).used.toNat = min (owed cs) (UInt64.size - 1)
        ∧ ((fresh perCall overall).changes cs).available.toNat
          = min perCall.toNat (overall.toNat - owed cs))
    ∧ (∀ (q : Quota) (ns ms : List UInt64), ms.Perm ns →
        q.chargeAll ms = q.charge (word (ns.map UInt64.toNat).sum))
    ∧ ∀ (q : Quota) (ns : List UInt64), (q.chargeAll ns).available ≤ q.available
  := by
  refine ⟨?_, ?_, available_chargeAll_le⟩
  · intro cs
    have howes := (owes_fresh perCall overall).changes cs
    exact ⟨howes.used_eq, howes.available⟩
  · intro q ns ms h
    exact q.chargeAll_perm h

/-- Half of the words. -/
def half : UInt64 := 0x8000000000000000

/-- With the greatest words for limits, charges that add up to more than a word leave nothing, in
whatever order they come, and a reset gives all back. -/
theorem saturation_unobservable_overflow :
  [1, half, half].Perm [half, 1, half]
    ∧ standard.chargeAll [1, half, half]
      = standard.charge (word ([half, 1, half].map UInt64.toNat).sum)
    ∧ ((fresh (word UInt64.size) (word UInt64.size)).changes
        [.charge 1, .charge half, .charge half]).available.toNat = 0
    ∧ ((fresh (word UInt64.size) (word UInt64.size)).changes
        [.charge half, .charge half, .reset, .charge 1]).available.toNat = UInt64.size - 2
  := by
  have hperm : [1, half, half].Perm [half, 1, half] := .swap _ _ _
  obtain ⟨hcount, hparts, -⟩ := saturation_unobservable (word UInt64.size) (word UInt64.size)
  refine ⟨hperm, hparts standard _ _ hperm, ?_, ?_⟩
  · rw [(hcount _).2]
    decide +kernel
  · rw [(hcount _).2]
    decide +kernel

end Dice.Quota
