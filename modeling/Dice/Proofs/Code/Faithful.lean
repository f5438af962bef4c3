import Dice.Proofs.Code.Settling

/-!
# Faithful code

A value is read back from its code with all its numbers settled. The code is faithful, that is, it
denotes an equal value of the same total, exactly where every number is finite, every count of
sides is an integer, every die still shows a number of its faces when both are settled, and
settling the numbers does not change the total.
-/

namespace Dice

/-! ### Settled values -/

mutual

/-- The value with its numbers settled. -/
def Value.settled : Value → Value
  | .number x => .number x.settled
  | .list vs => .list (settledAll vs)
  | .die x f => .die x.settled f.settled

/-- The faces with their numbers settled. -/
def Faces.settled : Faces → Faces
  | .upTo n pos => .upTo n pos
  | .listed v vs => .listed v.settled (settledAll vs)

/-- Some values with their numbers settled. -/
def settledAll : List Value → List Value
  | [] => []
  | v :: vs => v.settled :: settledAll vs

end

mutual

/-- Whether every number in a value is finite, every count of sides is an integer, and every die
shows a number of its faces when both are settled. -/
def Value.isStable : Value → Bool
  | .number x => x.isFinite
  | .list vs => allStable vs
  | .die x f => x.isFinite && f.isStable && f.settled.contains x.settled

/-- Whether some faces are stable in the same way. -/
def Faces.isStable : Faces → Bool
  | .upTo n _ => n ≤ Int64.maxValue.toInt
  | .listed v vs => v.isStable && allStable vs

/-- Whether all of some values are stable. -/
def allStable : List Value → Bool
  | [] => true
  | v :: vs => v.isStable && allStable vs

end

/-! ### Reading back -/

theorem Number.reread?_eq (x : Number) :
  x.reread? = if x.isFinite then some x.settled else none
  := by
  by_cases hx : x.isFinite
  · rw [if_pos hx]
    cases x with
    | int n => rw [reread?_int, settled]
    | float x => rw [reread?_float hx]
  · rw [reread?, if_neg hx, if_neg hx]

theorem Number.settled_beq {x : Number} (hx : x.isFinite) :
  x.settled == x
  := by
  cases x with
  | int n =>
    change (some (compare n.toInt n.toInt) == some .eq) = true
    simp
  | float x =>
    change ((settled (float x)).compare? (float x) == some .eq) = true
    rw [settled_compare hx]
    rfl

/-! ### Stable values are read back settled -/

/-- Stable faces are those that the value of the settled faces stands for, once settled. -/
theorem Faces.ofValue?_settled {f : Faces} (h : f.isStable) :
  ofValue? f.settled.toValue = some f.settled
  := by
  cases f with
  | listed v vs => rfl
  | upTo n pos => exact ofValue?_upTo pos (of_decide_eq_true h)

mutual

theorem Value.reread?_of_isStable : ∀ v : Value, v.isStable →
  v.reread? = some v.settled ∧ v.settled == v
  | .number x, h => by
    constructor
    · have hx : x.isFinite = true := h
      rw [Value.reread?, Number.reread?_eq, if_pos hx]
      rfl
    · exact Number.settled_beq h
  | .list vs, h => by
    obtain ⟨hread, hequal⟩ := rereadAll?_of_allStable vs h
    constructor
    · rw [Value.reread?, hread]
      rfl
    · exact hequal
  | .die x f, h => by
    obtain ⟨hxf, hcontains⟩ := Bool.and_eq_true_iff.1 h
    obtain ⟨hx, hf⟩ := Bool.and_eq_true_iff.1 hxf
    obtain ⟨hread, hequal⟩ := Faces.reread?_of_isStable f hf
    constructor
    · have hdie : Die.ofValues (.number x.settled) f.settled.toValue
          = .ok ⟨x.settled, f.settled⟩ := by
        rw [Die.ofValues, Faces.ofValue?_settled hf]
        exact if_pos hcontains
      rw [Value.reread?, Number.reread?_eq, if_pos hx, Option.bind_some, hread,
        Option.bind_some, hdie]
      rfl
    · exact Bool.and_eq_true_iff.2 ⟨Number.settled_beq hx, hequal⟩

theorem Faces.reread?_of_isStable : ∀ f : Faces, f.isStable →
  f.reread? = some f.settled.toValue ∧ Value.equalFaces f.settled f
  | .upTo n pos, h => by
    constructor
    · exact Faces.reread?_upTo pos (of_decide_eq_true h)
    · exact beq_self_eq_true n
  | .listed v vs, h => by
    obtain ⟨hv, hvs⟩ := Bool.and_eq_true_iff.1 h
    obtain ⟨hread, hequal⟩ := Value.reread?_of_isStable v hv
    obtain ⟨hreads, hequals⟩ := rereadAll?_of_allStable vs hvs
    constructor
    · rw [Faces.reread?, hread, hreads]
      rfl
    · exact Bool.and_eq_true_iff.2 ⟨hequal, hequals⟩

theorem rereadAll?_of_allStable : ∀ vs : List Value, allStable vs →
  rereadAll? vs = some (settledAll vs) ∧ Value.equalAll (settledAll vs) vs
  | [], _ => ⟨rfl, rfl⟩
  | v :: vs, h => by
    obtain ⟨hv, hvs⟩ := Bool.and_eq_true_iff.1 h
    obtain ⟨hread, hequal⟩ := Value.reread?_of_isStable v hv
    obtain ⟨hreads, hequals⟩ := rereadAll?_of_allStable vs hvs
    constructor
    · rw [rereadAll?, hread, hreads]
      rfl
    · exact Bool.and_eq_true_iff.2 ⟨hequal, hequals⟩

end

/-! ### What is read back equal is stable -/

/-- A die that is put down shows the total of its outcome on faces that contain it. -/
theorem Die.eq_of_ofValues {v g : Value} {d : Die} (h : (ofValues v g).toOption = some d) :
  ∃ f, Faces.ofValue? g = some f ∧ f.contains v.total ∧ d = ⟨v.total, f⟩
  := by
  rw [ofValues] at h
  cases hf : Faces.ofValue? g with
  | none =>
    rw [hf] at h
    cases h
  | some f =>
    rw [hf] at h
    simp only [showing] at h
    split at h
    · rename_i hcontains
      cases h
      exact ⟨f, rfl, hcontains, rfl⟩
    · cases h

/-- A number stands for no more sides than an integer counts. -/
theorem Faces.le_of_ofValue?_number {x : Number} {f : Faces} (h : ofValue? (.number x) = some f) :
  ∃ n pos, f = upTo n pos ∧ n ≤ Int64.maxValue.toInt
  := by
  have hmax := x.toInt.toInt_lt
  by_cases hpos : 0 < x.toInt.toInt.toNat
  · rw [ofValue?_number hpos rfl] at h
    cases h
    refine ⟨_, hpos, rfl, ?_⟩
    change ((x.toInt.toInt.toNat : Nat) : Int) ≤ 2 ^ 63 - 1
    omega
  · have hnone : ofValue? (.number x) = none := dif_neg hpos
    rw [hnone] at h
    cases h

mutual

theorem Value.isStable_of_reread? : ∀ (v w : Value), v.reread? = some w → w == v →
  v.isStable ∧ w = v.settled
  | .number x, w, h, hequal => by
    rw [Value.reread?, Number.reread?_eq] at h
    split at h
    · rename_i hx
      cases h
      exact ⟨hx, rfl⟩
    · cases h
  | .list vs, w, h, hequal => by
    obtain ⟨ws, hws, rfl⟩ := Option.map_eq_some_iff.1 h
    obtain ⟨hstable, rfl⟩ := allStable_of_rereadAll? vs ws hws hequal
    exact ⟨hstable, rfl⟩
  | .die x f, w, h, hequal => by
    obtain ⟨y, hy, h⟩ := Option.bind_eq_some_iff.1 h
    obtain ⟨g, hg, h⟩ := Option.bind_eq_some_iff.1 h
    obtain ⟨d, hd, rfl⟩ := Option.map_eq_some_iff.1 h
    -- The die was checked again when it was put down, on the faces that were read back.
    obtain ⟨f', hf', hcontains, rfl⟩ := Die.eq_of_ofValues hd
    obtain ⟨-, hfaces⟩ := Bool.and_eq_true_iff.1 hequal
    obtain ⟨hstable, rfl⟩ := Faces.isStable_of_reread? f g f' hg hf' hfaces
    rw [Number.reread?_eq] at hy
    split at hy
    · rename_i hx
      cases hy
      exact ⟨Bool.and_eq_true_iff.2 ⟨Bool.and_eq_true_iff.2 ⟨hx, hstable⟩, hcontains⟩, rfl⟩
    · cases hy

theorem Faces.isStable_of_reread? : ∀ (f : Faces) (g : Value) (f' : Faces),
  f.reread? = some g → Faces.ofValue? g = some f' → Value.equalFaces f' f →
    f.isStable ∧ f' = f.settled
  | .upTo n pos, g, f', hg, hf', hequal => by
    obtain ⟨x, -, rfl⟩ := Option.map_eq_some_iff.1 hg
    obtain ⟨m, hm, rfl, hle⟩ := Faces.le_of_ofValue?_number hf'
    obtain rfl : m = n := beq_iff_eq.1 hequal
    exact ⟨decide_eq_true hle, rfl⟩
  | .listed v vs, g, f', hg, hf', hequal => by
    obtain ⟨us, hus, rfl⟩ := Option.map_eq_some_iff.1 hg
    obtain ⟨w, hw, hus⟩ := Option.bind_eq_some_iff.1 hus
    obtain ⟨ws, hws, rfl⟩ := Option.map_eq_some_iff.1 hus
    cases hf'
    obtain ⟨hwv, hwvs⟩ := Bool.and_eq_true_iff.1 hequal
    obtain ⟨hstable, rfl⟩ := Value.isStable_of_reread? v w hw hwv
    obtain ⟨hstables, rfl⟩ := allStable_of_rereadAll? vs ws hws hwvs
    exact ⟨Bool.and_eq_true_iff.2 ⟨hstable, hstables⟩, rfl⟩

theorem allStable_of_rereadAll? : ∀ (vs ws : List Value), rereadAll? vs = some ws →
  Value.equalAll ws vs → allStable vs ∧ ws = settledAll vs
  | [], ws, h, hequal => by
    cases h
    exact ⟨rfl, rfl⟩
  | v :: vs, ws, h, hequal => by
    obtain ⟨w, hw, h⟩ := Option.bind_eq_some_iff.1 h
    obtain ⟨ws, hws, rfl⟩ := Option.map_eq_some_iff.1 h
    obtain ⟨hwv, hwvs⟩ := Bool.and_eq_true_iff.1 hequal
    obtain ⟨hstable, rfl⟩ := Value.isStable_of_reread? v w hw hwv
    obtain ⟨hstables, rfl⟩ := allStable_of_rereadAll? vs ws hws hwvs
    exact ⟨Bool.and_eq_true_iff.2 ⟨hstable, hstables⟩, rfl⟩

end

/-! ### Faithful code -/

/-- What the code of a value denotes is equal to the value only where the value is stable, and it is
the settled value. -/
theorem Value.ofText_code_eq_iff (v w : Value) :
  ofText v.code = .ok w ∧ w == v ↔ v.isStable ∧ w = v.settled
  := by
  have hcode := ofText_code v
  constructor
  · rintro ⟨hread, hequal⟩
    rw [hread] at hcode
    exact isStable_of_reread? v w hcode.symm hequal
  · rintro ⟨hstable, rfl⟩
    obtain ⟨hread, hequal⟩ := reread?_of_isStable v hstable
    rw [hread] at hcode
    exact ⟨eq_ok_of_toOption hcode, hequal⟩

/-- The code of a value denotes an equal value of the same total exactly where the value is stable
and settling its numbers does not change its total. -/
theorem Value.code_faithful_iff (v : Value) :
  (∃ w, ofText v.code = .ok w ∧ w == v ∧ w.total == v.total)
    ↔ v.isStable ∧ v.settled.total == v.total
  := by
  constructor
  · rintro ⟨w, hread, hequal, htotal⟩
    obtain ⟨hstable, rfl⟩ := (ofText_code_eq_iff v w).1 ⟨hread, hequal⟩
    exact ⟨hstable, htotal⟩
  · rintro ⟨hstable, htotal⟩
    obtain ⟨hread, hequal⟩ := (ofText_code_eq_iff v v.settled).2 ⟨hstable, rfl⟩
    exact ⟨v.settled, hread, hequal, htotal⟩

/-- Stable numbers may add up to another total once they are settled. -/
example : ∃ v : Value, v.isStable ∧ (v.settled.total == v.total) = false :=
  ⟨.list [.number (.float (.ofBits 0x4340000000000000)), .number (.int 1), .number (.int 1)],
    by decide +kernel⟩

/-- The text of a die whose outcome is a double. The double is equal to the count of sides as
doubles go, and greater as the integer that it is read back as. -/
def lopsided : String :=
  "\x7b!die,18014398509481984.,18014398509481983\x7d"

/-- A value that is read from a text need not be read back from its code. -/
theorem Value.ofText_code_lopsided :
  ∃ v, ofText lopsided = .ok v ∧ ∀ w, ofText v.code ≠ .ok w
  := by
  have hread : ((ofText lopsided).toOption.map fun v => (ofText v.code).toOption.isNone) = some true
    := by decide +kernel
  obtain ⟨v, hv, hnone⟩ := Option.map_eq_some_iff.1 hread
  refine ⟨v, eq_ok_of_toOption hv, ?_⟩
  intro w hw
  rw [hw] at hnone
  cases hnone

end Dice
