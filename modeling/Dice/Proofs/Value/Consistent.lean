import Dice.Proofs.Code.Faithful
import Dice.Proofs.Reader.Parsing
import Dice.Throw

/-!
# Consistent values

A die is consistent if its faces contain what it shows and its count of sides, if it has one, is a
positive integer. A value is consistent if every die in it is, at whatever depth. Texts denote
consistent values, and a die that lands on a face of consistent faces is consistent, unless it lands
on a NaN.
-/

namespace Dice

/-- The die is the value, or it occurs in an element of a list or in a face of a die. -/
inductive Die.In : Die → Value → Prop
  | self (x : Number) (f : Faces) : Die.In ⟨x, f⟩ (.die x f)
  | element {d : Die} {v : Value} {vs : List Value} : v ∈ vs → Die.In d v → Die.In d (.list vs)
  | face {d : Die} {x : Number} {v first : Value} {rest : List Value} : v ∈ first :: rest →
      Die.In d v → Die.In d (.die x (.listed first rest))

/-- A count of sides is a positive 64-bit integer. -/
def Faces.InRange : Faces → Prop
  | upTo n _ => 1 ≤ n ∧ n ≤ Int64.maxValue.toInt
  | listed _ _ => True

/-- The faces contain the outcome, and their count is in range. -/
structure Die.Consistent (d : Die) : Prop where
  contains : d.faces.contains d.outcome
  inRange : d.faces.InRange

/-- Every die in the value is consistent. -/
def Value.Consistent (v : Value) : Prop :=
  ∀ d : Die, d.In v → d.Consistent

/-- The values on faces that are listed. -/
def Faces.values : Faces → List Value
  | upTo _ _ => []
  | listed first rest => first :: rest

/-- The count is in range, and every die in a listed face is consistent. -/
structure Faces.Consistent (f : Faces) : Prop where
  inRange : f.InRange
  values (v : Value) : v ∈ f.values → v.Consistent

namespace Value

theorem consistent_number (x : Number) :
  (number x).Consistent
  := by
  intro d h
  cases h

theorem consistent_list_iff (vs : List Value) :
  (list vs).Consistent ↔ ∀ v ∈ vs, v.Consistent
  := by
  constructor
  · intro h v hv d hd
    exact h d (.element hv hd)
  · intro h d hd
    cases hd with
    | element hv hd => exact h _ hv d hd

theorem consistent_die_iff (x : Number) (f : Faces) :
  (die x f).Consistent ↔ f.contains x ∧ f.Consistent
  := by
  constructor
  · intro h
    have hself := h _ (.self x f)
    refine ⟨hself.contains, hself.inRange, ?_⟩
    intro v hv d hd
    cases f with
    | upTo n pos => cases hv
    | listed first rest => exact h d (.face hv hd)
  · rintro ⟨hcontains, hf⟩ d hd
    cases hd with
    | self => exact ⟨hcontains, hf.inRange⟩
    | face hv hd => exact hf.values _ hv d hd

/-- A value is consistent when its elements are. -/
theorem consistent_iff_elements (v : Value) :
  v.Consistent ↔ ∀ w ∈ v.elements, w.Consistent
  := by
  cases v with
  | list vs => apply consistent_list_iff
  | number x => exact List.forall_mem_singleton.symm
  | die x f => exact List.forall_mem_singleton.symm

end Value

/-! ### Faces -/

namespace Faces

/-- The faces that a consistent value stands for are consistent. -/
theorem consistent_of_ofValue? {v : Value} {f : Faces} (hv : v.Consistent)
    (hf : ofValue? v = some f) :
  f.Consistent
  := by
  have hcounted : ∀ {x : Number}, ofValue? (.number x) = some f → f.Consistent := by
    intro x h
    obtain ⟨n, pos, rfl, hn⟩ := le_of_ofValue?_number h
    refine ⟨⟨pos, hn⟩, ?_⟩
    intro v hv
    cases hv
  cases v with
  | number x => exact hcounted hf
  | die x g =>
    have hsame : ofValue? (.die x g) = ofValue? (.number x) := rfl
    exact hcounted (hsame ▸ hf)
  | list vs =>
    cases vs with
    | nil => cases hf
    | cons v vs =>
      cases hf
      exact ⟨trivial, (Value.consistent_list_iff _).1 hv⟩

/-- The value that stands for consistent faces is consistent. -/
theorem consistent_toValue {f : Faces} (h : f.Consistent) :
  f.toValue.Consistent
  := by
  cases f with
  | upTo n pos => apply Value.consistent_number
  | listed first rest => exact (Value.consistent_list_iff _).2 h.values

theorem inferredCount_le (x : Number) :
  inferredCount x ≤ 2147483647
  := by
  unfold inferredCount
  cases h : ladder.find? fun n => (x.abs.compare? (.int (.ofNat n))).any (·.isLE) with
  | none => decide
  | some n =>
    have all : ∀ n ∈ ladder, n ≤ 2147483647 := by decide
    exact all n (List.mem_of_find?_eq_some h)

/-- The faces that a consistent element is drawn from anew are consistent. -/
theorem consistent_redrawFaces {v : Value} (hv : v.Consistent) :
  v.redrawFaces.Consistent
  := by
  have hinferred : (inferred v.total).Consistent := by
    refine ⟨⟨inferredCount_pos _, ?_⟩, ?_⟩
    · have hle := inferredCount_le v.total
      change (inferredCount v.total : Int) ≤ 2 ^ 63 - 1
      omega
    · intro w hw
      cases hw
  cases v with
  | die x f => exact ((Value.consistent_die_iff x f).1 hv).2
  | number x => exact hinferred
  | list vs => exact hinferred

end Faces

/-! ### Landings -/

/-- Whether the number is a NaN. -/
def Number.isNaN : Number → Bool
  | int _ => false
  | float x => x.isNaN

/-- Faces none of which has a NaN as its total. -/
def Faces.Ordinary (f : Faces) : Prop :=
  ∀ i, (f.outcome i).isNaN = false

theorem Number.beq_self {x : Number} (h : x.isNaN = false) :
  x == x
  := by
  cases x with
  | int n =>
    change (some (compare n.toInt n.toInt) == some .eq) = true
    simp
  | float x =>
    change (compareFloat? x x == some .eq) = true
    rw [compareFloat?_self h]
    rfl

namespace Faces

/-- A counted die lands on one of the integers up to the count. -/
theorem toInt_outcome_upTo {n : Nat} {pos : 0 < n} (h : (upTo n pos).InRange) (i : Fin n) :
  ∃ k : Int64, (upTo n pos).outcome i = .int k ∧ k.toInt = i + 1 ∧ 1 ≤ k.toInt ∧ k.toInt ≤ n
  := by
  have hi := i.isLt
  have hmax : ((i + 1 : Nat) : Int) ≤ Int64.maxValue.toInt := by
    have hn := h.2
    omega
  have hk : (Int64.ofNat (i + 1)).toInt = (i + 1 : Nat) := toInt_ofNat hmax
  exact ⟨.ofNat (i + 1), rfl, by omega, by omega, by omega⟩

/-- Faces contain what a die that lands on one of them shows. -/
theorem contains_outcome {f : Faces} (hf : f.InRange) (hordinary : f.Ordinary) (i : Fin f.count) :
  f.contains (f.outcome i)
  := by
  cases f with
  | upTo n pos =>
    obtain ⟨k, hk, -, hone, hle⟩ := toInt_outcome_upTo hf i
    rw [hk, contains, Bool.and_eq_true, Bool.and_eq_true]
    have hn : (Int64.ofNat n).toInt = n := toInt_ofNat hf.2
    refine ⟨⟨rfl, ?_⟩, ?_⟩
    · apply Int.isLE_compare.2 hone
    · apply Int.isLE_compare.2
      rw [hn]
      exact hle
  | listed first rest =>
    rw [contains, List.any_eq_true]
    exact ⟨_, List.get_mem (first :: rest) i, Number.beq_self (hordinary i)⟩

end Faces

/-- A die that lands on a face is consistent. -/
theorem Die.consistent_landed {f : Faces} (hf : f.Consistent) (hordinary : f.Ordinary)
    (i : Fin f.count) :
  (landed f i).toValue.Consistent
  := by
  apply (Value.consistent_die_iff _ f).2
  exact ⟨Faces.contains_outcome hf.inRange hordinary i, hf⟩

/-- A die that is put down is consistent. -/
theorem Die.consistent_of_ofValues {v g : Value} {d : Die} (hg : g.Consistent)
    (hd : (ofValues v g).toOption = some d) :
  d.toValue.Consistent
  := by
  obtain ⟨f, hf, hcontains, rfl⟩ := eq_of_ofValues hd
  apply (Value.consistent_die_iff _ f).2
  exact ⟨hcontains, Faces.consistent_of_ofValue? hg hf⟩

/-! ### Texts -/

mutual

/-- A derivation denotes a consistent value. -/
theorem Tree.consistent_value? : ∀ (tree : Tree) {v : Value}, tree.value? = some v → v.Consistent
  | .numeral negative cs, v, h => by
    obtain ⟨x, -, rfl⟩ := Option.map_eq_some_iff.1 h
    apply Value.consistent_number
  | .list items, v, h => by
    obtain ⟨vs, hvs, rfl⟩ := Option.map_eq_some_iff.1 h
    apply (Value.consistent_list_iff vs).2
    exact consistent_values? items hvs
  | .die outcome faces, v, h => by
    obtain ⟨x, -, h⟩ := Option.bind_eq_some_iff.1 h
    obtain ⟨g, hg, h⟩ := Option.bind_eq_some_iff.1 h
    obtain ⟨d, hd, rfl⟩ := Option.map_eq_some_iff.1 h
    exact Die.consistent_of_ofValues (consistent_value? faces hg) hd

theorem Tree.consistent_values? : ∀ (items : List Tree) {vs : List Value},
    values? items = some vs → ∀ v ∈ vs, v.Consistent
  | [], vs, h => by
    cases h
    intro v hv
    cases hv
  | item :: items, vs, h => by
    obtain ⟨w, hw, h⟩ := Option.bind_eq_some_iff.1 h
    obtain ⟨ws, hws, rfl⟩ := Option.map_eq_some_iff.1 h
    intro v hv
    rcases List.mem_cons.1 hv with rfl | hv
    · exact consistent_value? item hw
    · exact consistent_values? items hws v hv

end

/-- A text denotes a consistent value. -/
theorem Value.consistent_of_ofText {s : String} {v : Value} (h : ofText s = .ok v) :
  v.Consistent
  := by
  obtain ⟨tree, -, hvalue⟩ := (ofText_iff s v).1 h
  exact tree.consistent_value? hvalue

end Dice
