/-!
# Quotas

A quota limits how many dice one call may throw, and how many all calls together may. What is
thrown is charged to it. Counts are 64-bit words and stop at their greatest value.
-/

namespace Dice

/-- The sum of two words, or the greatest word where they add up to more. -/
def saturatingAdd (a b : UInt64) : UInt64 :=
  if a + b < a then .ofNat (UInt64.size - 1) else a + b

/-- The difference of two words, or zero where the second is greater. -/
def saturatingSub (a b : UInt64) : UInt64 :=
  if a < b then 0 else a - b

/-- The saturating sum is the sum of naturals, cut off at the greatest word. -/
theorem toNat_saturatingAdd (a b : UInt64) :
  (saturatingAdd a b).toNat = min (a.toNat + b.toNat) (UInt64.size - 1)
  := by
  have ha := a.toNat_lt
  have hb := b.toNat_lt
  have hsize : UInt64.size = 2 ^ 64 := rfl
  unfold saturatingAdd
  split <;> rename_i h <;> simp [UInt64.lt_iff_toNat_lt, UInt64.toNat_add] at h ⊢ <;> omega

/-- The saturating difference is the difference of naturals. -/
theorem toNat_saturatingSub (a b : UInt64) :
  (saturatingSub a b).toNat = a.toNat - b.toNat
  := by
  unfold saturatingSub
  split
  · rename_i h
    rw [UInt64.lt_iff_toNat_lt] at h
    simp only [UInt64.toNat_zero]
    omega
  · rename_i h
    rw [UInt64.lt_iff_toNat_lt] at h
    exact UInt64.toNat_sub_of_le _ _ (UInt64.le_iff_toNat_le.2 (by omega))

/-- The limit of one call, the limit of all calls together, and the dice thrown so far. -/
structure Quota where
  perCall : UInt64
  overall : UInt64
  used : UInt64
deriving DecidableEq

namespace Quota

/-- A quota of which nothing is used. -/
def fresh (perCall overall : UInt64) : Quota :=
  ⟨perCall, overall, 0⟩

/-- A thousand dice to a call, and a thousand in all. -/
def standard : Quota :=
  fresh 1000 1000

/-- How many dice the next call may throw. -/
def available (q : Quota) : UInt64 :=
  min q.perCall (saturatingSub q.overall q.used)

/-- Charges some dice. -/
def charge (q : Quota) (n : UInt64) : Quota :=
  { q with used := saturatingAdd q.used n }

/-- Forgets what was charged. -/
def reset (q : Quota) : Quota :=
  { q with used := 0 }

end Quota

end Dice
