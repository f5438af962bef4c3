import Dice.Proofs.Play.Gives
import Dice.Proofs.Play.Program
import Dice.Proofs.Value.Consistent

/-!
# Consistent contexts

A context holds the values that are bound in its scope and those in its history. It is consistent if
every die in them is. It stays so when a consistent value is assigned or bound, when frames come and
go, and when dice are settled that were made of consistent values.
-/

namespace Dice

/-- A value is bound in a frame. -/
def Frame.Holds (f : Frame) (v : Value) : Prop :=
  ∃ name, (name, v) ∈ f

/-- A value is bound in a frame of the scope. -/
def Scope.Holds (s : Scope) (v : Value) : Prop :=
  ∃ f ∈ s.frames, f.Holds v

/-- A value is bound in the scope, or is in an entry of the history. -/
def Context.Holds {ρ : Type} (ctx : Context ρ) (v : Value) : Prop :=
  ctx.scope.Holds v ∨ ∃ e ∈ ctx.entries, v ∈ e.result

/-- Every die in the scope and in the history is consistent. -/
def Context.Consistent {ρ : Type} (ctx : Context ρ) : Prop :=
  ∀ v, ctx.Holds v → v.Consistent

theorem Frame.holds_insert {f : Frame} {name : String} {v w : Value}
    (h : (f.insert name v).Holds w) :
  w = v ∨ f.Holds w
  := by
  obtain ⟨n, h⟩ := h
  induction f with
  | nil =>
    left
    cases List.mem_singleton.1 h
    rfl
  | cons b f ih =>
    obtain ⟨m, u⟩ := b
    rw [insert] at h
    split at h
    · rcases List.mem_cons.1 h with h | h
      · left
        cases h
        rfl
      · right
        exact ⟨n, List.mem_cons_of_mem _ h⟩
    · rcases List.mem_cons.1 h with h | h
      · right
        exact ⟨n, h ▸ List.mem_cons_self⟩
      · rcases ih h with h | ⟨m, h⟩
        · left
          exact h
        · right
          exact ⟨m, List.mem_cons_of_mem _ h⟩

namespace Scope

variable {s : Scope} {name : String} {v w : Value}

theorem Rebound.holds {fs gs : List Frame} (h : Rebound name v fs gs)
    (hw : ∃ g ∈ gs, g.Holds w) :
  w = v ∨ ∃ f ∈ fs, f.Holds w
  := by
  induction h with
  | here hf =>
    rw [List.exists_mem_cons_iff] at hw ⊢
    rcases hw with hw | hw
    · exact (Frame.holds_insert hw).imp_right .inl
    · right
      right
      exact hw
  | last hf =>
    simp only [List.mem_singleton, exists_eq_left] at hw ⊢
    exact Frame.holds_insert hw
  | further hf h ih =>
    rw [List.exists_mem_cons_iff] at hw ⊢
    rcases hw with hw | hw
    · right
      left
      exact hw
    · exact (ih hw).imp_right .inr

theorem holds_set (h : (s.set name v).Holds w) :
  w = v ∨ s.Holds w
  := (rebound_set s name v).holds h

theorem holds_bind (h : (s.bind name v).Holds w) :
  w = v ∨ s.Holds w
  := by
  obtain ⟨inner, root⟩ := s
  cases inner with
  | nil =>
    change ∃ g ∈ [root.insert name v], _ at h
    change _ ∨ ∃ g ∈ [root], _
    simp only [List.mem_singleton, exists_eq_left] at h ⊢
    exact Frame.holds_insert h
  | cons f fs =>
    change ∃ g ∈ f.insert name v :: (fs ++ [root]), _ at h
    change _ ∨ ∃ g ∈ f :: (fs ++ [root]), _
    rw [List.exists_mem_cons_iff] at h ⊢
    rcases h with h | h
    · exact (Frame.holds_insert h).imp_right .inl
    · right
      right
      exact h

/-- What a name is bound to is held. -/
theorem holds_of_get? (h : s.get? name = some v) :
  s.Holds v
  := by
  obtain ⟨f, hf, hv⟩ := List.exists_of_findSome?_eq_some h
  rw [Frame.get?, List.lookup_eq_some_iff] at hv
  obtain ⟨before, behind, rfl, -⟩ := hv
  exact ⟨_, hf, name, List.mem_append_right before List.mem_cons_self⟩

theorem holds_push (h : s.push.Holds w) :
  s.Holds w
  := by
  obtain ⟨g, hg, n, hn⟩ := h
  rcases List.mem_cons.1 hg with rfl | hg
  · cases hn
  · exact ⟨g, hg, n, hn⟩

theorem holds_pop (h : s.pop.Holds w) :
  s.Holds w
  := by
  obtain ⟨g, hg, hn⟩ := h
  refine ⟨g, ?_, hn⟩
  rcases List.mem_append.1 hg with hg | hg
  · exact List.mem_append_left _ (List.mem_of_mem_tail hg)
  · exact List.mem_append_right _ hg

end Scope

namespace Context

variable {ρ : Type} {ctx : Context ρ}

/-- A context with another scope, of which every value was held before or is consistent. -/
theorem Consistent.of_scope (h : ctx.Consistent) {scope : Scope}
    (hscope : ∀ v, scope.Holds v → v.Consistent ∨ ctx.scope.Holds v) :
  Consistent { ctx with scope }
  := by
  rintro v (hv | hv)
  · rcases hscope v hv with hv | hv
    · exact hv
    · exact h v (.inl hv)
  · exact h v (.inr hv)

theorem Consistent.set (h : ctx.Consistent) (name : String) {v : Value} (hv : v.Consistent) :
  Consistent { ctx with scope := ctx.scope.set name v }
  := by
  apply h.of_scope
  intro w hw
  apply (Scope.holds_set hw).imp_left
  rintro rfl
  exact hv

theorem Consistent.bind (h : ctx.Consistent) (name : String) {v : Value} (hv : v.Consistent) :
  Consistent { ctx with scope := ctx.scope.bind name v }
  := by
  apply h.of_scope
  intro w hw
  apply (Scope.holds_bind hw).imp_left
  rintro rfl
  exact hv

theorem Consistent.enter (h : ctx.Consistent) (index : Int64) :
  (ctx.enter index).Consistent
  := by
  apply h.of_scope
  intro w hw
  rcases Scope.holds_bind hw with rfl | hw
  · left
    apply Value.consistent_number
  · right
    exact Scope.holds_push hw

theorem Consistent.leave (h : ctx.Consistent) :
  ctx.leave.Consistent
  := by
  apply h.of_scope
  intro w hw
  right
  exact Scope.holds_pop hw

/-- The entries after a run of throws are those before it and its own. -/
theorem mem_entries_settle {α : Type} {t : Thrown α} {r : ρ} {e : Entry}
    (h : e ∈ (ctx.settle t r).entries) :
  e ∈ ctx.entries ∨ e ∈ t.entries
  := by
  rw [entries] at h ⊢
  cases hhistory : ctx.history with
  | none =>
    simp only [settle, hhistory] at h
    cases h
  | some history =>
    have hpushed : (ctx.settle t r).history = some (history ++ t.entries.toArray) := by
      rw [settle, hhistory, Option.map_some]
      exact congrArg some List.foldl_push_eq_append'
    rw [hpushed, Option.getD_some, Array.toList_append] at h
    exact List.mem_append.1 h

theorem Consistent.settle (h : ctx.Consistent) {α : Type} {values : α → List Value} {t : Thrown α}
    (ht : t.Made Value.Consistent values) (r : ρ) :
  (ctx.settle t r).Consistent
  := by
  rintro v (hv | ⟨e, he, hv⟩)
  · rcases hslot : t.slot with _ | ⟨name, w⟩
    · simp only [Context.settle, hslot] at hv
      exact h v (.inl hv)
    · simp only [Context.settle, hslot] at hv
      rcases Scope.holds_set hv with rfl | hv
      · apply (Value.consistent_iff_elements v).2
        exact ht.slot name v hslot
      · exact h v (.inl hv)
  · rcases mem_entries_settle he with he | he
    · exact h v (.inr ⟨e, he, hv⟩)
    · exact ht.entries e he v hv

end Context

end Dice
