import Dice.Proofs.Scope.Assignment
import Mathlib.Algebra.Ring.Int.Defs
import Mathlib.Data.List.Infix
import Mathlib.Tactic.Common

/-!
# Nested frames

Edits that enter a frame, and leave it at their end and not before, come to nothing but assignments
further out: those that are made while no frame further in binds their names. They have the effect
that they would have without the frames, and these are gone with all that was bound in them.
-/

namespace Dice.Scope

/-- A single change to a scope. -/
inductive Edit where
  | push
  | pop
  | bind (name : String) (v : Value)
  | set (name : String) (v : Value)

/-- The scope after an edit. -/
def edit (s : Scope) : Edit → Scope
  | .push => s.push
  | .pop => s.pop
  | .bind name v => s.bind name v
  | .set name v => s.set name v

/-- The scope after some edits, one after the other. -/
def edits (s : Scope) (es : List Edit) : Scope :=
  es.foldl edit s

/-- How many more frames there are after an edit, unless it leaves the outermost one. -/
def Edit.rise : Edit → Int
  | push => 1
  | pop => -1
  | bind _ _ => 0
  | set _ _ => 0

/-- How many more frames there are after some edits that do not leave the outermost one. -/
def rise (es : List Edit) : Int :=
  (es.map Edit.rise).sum

/-- Edits that enter a frame, and leave it at their end and not before. -/
def Nested (es : List Edit) : Prop :=
  ∃ body, es = .push :: (body ++ [.pop]) ∧ (∀ front, front <+: body → 0 ≤ rise front)
    ∧ rise body = 0

/-- The frames that are further in than the outermost ones, of which there are `outer`. -/
def above (s : Scope) (outer : Nat) : List Frame :=
  s.inner.take (s.depth - outer)

/-- The names and values of the assignments that some edits make while no frame further in than the
`outer` outermost ones binds the name. -/
def passing (outer : Nat) : Scope → List Edit → List (String × Value)
  | _, [] => []
  | s, e :: es =>
    match e with
    | .set name v =>
      if ∀ f ∈ s.above outer, ¬ f.binds name then (name, v) :: passing outer (s.edit e) es
      else passing outer (s.edit e) es
    | _ => passing outer (s.edit e) es

/-- The scope after some assignments, one after the other. -/
def assign (s : Scope) (ps : List (String × Value)) : Scope :=
  ps.foldl (fun s p => s.set p.1 p.2) s

/-- What the frames bind a name to, innermost first. -/
def bindings (s : Scope) (name : String) : List (Option Value) :=
  s.frames.map (·.get? name)

/-- The place of the innermost frame that binds a name or, where none does, of the outermost one. -/
def home (s : Scope) (name : String) : Nat :=
  s.inner.findIdx (·.binds name)

/-! ### The frame that is assigned to -/

/-- The place of the frame of a name among some frames. -/
def homeIn (name : String) (fs : List Frame) : Nat :=
  fs.dropLast.findIdx (·.binds name)

theorem homeIn_frames (s : Scope) (name : String) :
  homeIn name s.frames = s.home name
  := by
  rw [homeIn, frames, List.dropLast_concat, home]

theorem homeIn_cons_of_binds {name : String} {f : Frame} (hf : f.binds name) (fs : List Frame) :
  homeIn name (f :: fs) = 0
  := by
  cases fs with
  | nil => rfl
  | cons g fs => simp [homeIn, List.findIdx_cons, hf]

theorem homeIn_cons_of_not_binds {name : String} {f : Frame} (hf : ¬ f.binds name)
    {fs : List Frame} (hfs : fs ≠ []) :
  homeIn name (f :: fs) = homeIn name fs + 1
  := by
  rw [homeIn, homeIn, List.dropLast_cons_of_ne_nil hfs, List.findIdx_cons]
  simp [hf]

namespace Rebound

variable {name : String} {v : Value} {fs gs : List Frame}

theorem ne_nil (h : Rebound name v fs gs) :
  fs ≠ [] ∧ gs ≠ []
  := by
  cases h <;> exact ⟨List.cons_ne_nil _ _, List.cons_ne_nil _ _⟩

/-- A name that is bound anew is bound in its own frame. -/
theorem map_get?_self (h : Rebound name v fs gs) :
  gs.map (·.get? name) = (fs.map (·.get? name)).set (homeIn name fs) (some v)
  := by
  induction h with
  | here hf =>
    rw [homeIn_cons_of_binds hf, List.map_cons, List.map_cons, List.set_cons_zero,
      Frame.get?_insert, if_pos rfl]
  | @last f hf =>
    have hhome : homeIn name [f] = 0 := rfl
    rw [hhome, List.map_singleton, List.map_singleton, List.set_cons_zero, Frame.get?_insert,
      if_pos rfl]
  | further hf h ih =>
    rw [homeIn_cons_of_not_binds hf h.ne_nil.1, List.map_cons, List.map_cons, List.set_cons_succ,
      ih]

/-- Every name keeps the place of its frame. -/
theorem homeIn_eq (h : Rebound name v fs gs) (other : String) :
  homeIn other gs = homeIn other fs
  := by
  have hinsert : ∀ f : Frame, f.binds name →
      ((f.insert name v).binds other ↔ f.binds other) := by
    intro f hf
    rw [Frame.binds_insert, or_iff_right_iff_imp]
    rintro rfl
    exact hf
  induction h with
  | @here f fs hf =>
    by_cases hother : f.binds other
    · rw [homeIn_cons_of_binds hother, homeIn_cons_of_binds ((hinsert f hf).2 hother)]
    · cases fs with
      | nil => rfl
      | cons g fs =>
        rw [homeIn_cons_of_not_binds hother (List.cons_ne_nil g fs),
          homeIn_cons_of_not_binds (mt (hinsert f hf).1 hother) (List.cons_ne_nil g fs)]
  | last hf => rfl
  | @further f fs gs hf h ih =>
    by_cases hother : f.binds other
    · rw [homeIn_cons_of_binds hother, homeIn_cons_of_binds hother]
    · rw [homeIn_cons_of_not_binds hother h.ne_nil.1,
        homeIn_cons_of_not_binds hother h.ne_nil.2, ih]

end Rebound

theorem home_set (s : Scope) (name other : String) (v : Value) :
  (s.set name v).home other = s.home other
  := by
  rw [← homeIn_frames, ← homeIn_frames, (rebound_set s name v).homeIn_eq]

theorem bindings_set_self (s : Scope) (name : String) (v : Value) :
  (s.set name v).bindings name = (s.bindings name).set (s.home name) (some v)
  := by
  rw [bindings, bindings, (rebound_set s name v).map_get?_self, homeIn_frames]

theorem bindings_set_of_ne (s : Scope) {name other : String} (h : other ≠ name) (v : Value) :
  (s.set name v).bindings other = s.bindings other
  := (rebound_set s name v).map_get? h

/-- What a name is found bound to is what its own frame binds it to. -/
theorem getElem?_home (s : Scope) (name : String) :
  (s.bindings name)[s.home name]? = some (s.get? name)
  := by
  have hfound : ∀ fs : List Frame, fs ≠ [] →
      (fs.map (·.get? name))[homeIn name fs]? = some (fs.findSome? (·.get? name)) := by
    intro fs hfs
    induction fs with
    | nil => contradiction
    | cons f fs ih =>
      by_cases hf : f.binds name
      · obtain ⟨v, hv⟩ := Option.isSome_iff_exists.1 hf
        rw [homeIn_cons_of_binds hf, List.findSome?_cons, hv, List.map_cons, hv]
        rfl
      · have hget := Frame.get?_of_not_binds hf
        cases fs with
        | nil =>
          rw [List.findSome?_cons, hget, List.map_singleton, hget]
          rfl
        | cons g fs =>
          rw [homeIn_cons_of_not_binds hf (List.cons_ne_nil g fs), List.findSome?_cons, hget,
            List.map_cons, List.getElem?_cons_succ, ih (List.cons_ne_nil g fs)]
  have hne : s.frames ≠ [] := by simp [frames]
  rw [← homeIn_frames, bindings, hfound s.frames hne, get?]

/-! ### Assignments in a row -/

theorem assign_cons (s : Scope) (p : String × Value) (ps : List (String × Value)) :
  s.assign (p :: ps) = (s.set p.1 p.2).assign ps
  := rfl

theorem depth_assign (s : Scope) (ps : List (String × Value)) :
  (s.assign ps).depth = s.depth
  := by
  induction ps generalizing s with
  | nil => rfl
  | cons p ps ih => rw [assign_cons, ih, depth_set]

/-- After some assignments, the frame of each name binds it to the last value assigned to it, and
all other bindings are as they were. -/
theorem bindings_assign (s : Scope) (ps : List (String × Value)) (name : String) :
  (s.assign ps).bindings name
    = match ps.reverse.lookup name with
      | some v => (s.bindings name).set (s.home name) (some v)
      | none => s.bindings name
  := by
  induction ps generalizing s with
  | nil => rfl
  | cons p ps ih =>
    obtain ⟨n, v⟩ := p
    rw [assign_cons, ih, home_set, List.reverse_cons, List.lookup_append]
    cases ps.reverse.lookup name with
    | some w =>
      rw [Option.some_or]
      by_cases hname : name = n
      · subst hname
        simp only [bindings_set_self, List.set_set]
      · simp only [bindings_set_of_ne s hname]
    | none =>
      rw [Option.none_or]
      by_cases hname : name = n
      · subst hname
        simp only [List.lookup_cons, beq_self_eq_true, bindings_set_self]
      · simp only [List.lookup_cons, beq_eq_false_iff_ne.2 hname, List.lookup_nil,
          bindings_set_of_ne s hname]

/-! ### Frames further in -/

/-- A scope with some more frames, which are further in than those it has. -/
def under (s : Scope) (fs : List Frame) : Scope :=
  { s with inner := fs ++ s.inner }

theorem above_under (s : Scope) (fs : List Frame) :
  (s.under fs).above s.depth = fs
  := by
  have hdepth : (s.under fs).depth - s.depth = fs.length := by
    simp only [depth, under, List.length_append]
    omega
  rw [above, hdepth]
  apply List.take_left

/-- An assignment goes past frames that do not bind the name. -/
theorem set_under_of_not_binds {name : String} {fs : List Frame}
    (h : ∀ f ∈ fs, ¬ f.binds name) (s : Scope) (v : Value) :
  (s.under fs).set name v = (s.set name v).under fs
  := by
  have hpast : setIn? name v (fs ++ s.inner) = (setIn? name v s.inner).map (fs ++ ·) := by
    induction fs with
    | nil => simp
    | cons f fs ih =>
      obtain ⟨hf, hfs⟩ := List.forall_mem_cons.1 h
      rw [List.cons_append, setIn?, if_neg hf, ih hfs, Option.map_map]
      rfl
  rw [set, set, under, hpast]
  cases setIn? name v s.inner <;> rfl

/-- An assignment stays within frames of which one binds the name. -/
theorem exists_set_under {name : String} {fs : List Frame} (h : ∃ f ∈ fs, f.binds name)
    (s : Scope) (v : Value) :
  ∃ gs, gs.length = fs.length ∧ (s.under fs).set name v = s.under gs
  := by
  have hwithin : ∃ gs, gs.length = fs.length
      ∧ setIn? name v (fs ++ s.inner) = some (gs ++ s.inner) := by
    induction fs with
    | nil =>
      obtain ⟨f, hf, -⟩ := h
      cases hf
    | cons f fs ih =>
      rw [List.cons_append, setIn?]
      by_cases hf : f.binds name
      · exact ⟨f.insert name v :: fs, rfl, if_pos hf⟩
      · have hfs : ∃ f ∈ fs, f.binds name := by
          simpa [hf] using h
        obtain ⟨gs, hlength, hset⟩ := ih hfs
        rw [if_neg hf, hset]
        exact ⟨f :: gs, congrArg (· + 1) hlength, rfl⟩
  obtain ⟨gs, hlength, hset⟩ := hwithin
  refine ⟨gs, hlength, ?_⟩
  rw [set, under, hset]
  rfl

theorem edits_cons (s : Scope) (e : Edit) (es : List Edit) :
  s.edits (e :: es) = (s.edit e).edits es
  := rfl

theorem edits_append (s : Scope) (es es' : List Edit) :
  s.edits (es ++ es') = (s.edits es).edits es'
  := List.foldl_append

/-- An edit within frames further in changes these only, or it is an assignment past all of them. -/
theorem exists_edit_under (s : Scope) (e : Edit) {fs : List Frame} (h : fs ≠ []) :
  ∃ gs ps, (gs.length : Int) = fs.length + e.rise
    ∧ (s.under fs).edit e = (s.assign ps).under gs
    ∧ ∀ es, passing s.depth (s.under fs) (e :: es)
        = ps ++ passing s.depth ((s.assign ps).under gs) es
  := by
  cases e with
  | push => exact ⟨[] :: fs, [], by simp [Edit.rise], rfl, fun _ => rfl⟩
  | pop =>
    cases fs with
    | nil => contradiction
    | cons f fs =>
      refine ⟨fs, [], ?_, rfl, fun _ => rfl⟩
      rw [List.length_cons, Edit.rise]
      omega
  | bind name v =>
    cases fs with
    | nil => contradiction
    | cons f fs => exact ⟨f.insert name v :: fs, [], by simp [Edit.rise], rfl, fun _ => rfl⟩
  | set name v =>
    by_cases hfs : ∀ f ∈ fs, ¬ f.binds name
    · have hset := set_under_of_not_binds hfs s v
      refine ⟨fs, [(name, v)], by simp [Edit.rise], hset, ?_⟩
      intro es
      rw [passing, above_under, if_pos hfs, edit, hset]
      rfl
    · have hbinds : ∃ f ∈ fs, f.binds name := by simpa using hfs
      obtain ⟨gs, hlength, hset⟩ := exists_set_under hbinds s v
      refine ⟨gs, [], by simp [Edit.rise, hlength], hset, ?_⟩
      intro es
      rw [passing, above_under, if_neg hfs, edit, hset]
      rfl

/-- Edits that always leave at least one of the frames further in make their passing assignments and
change these frames. -/
theorem exists_edits_under (s : Scope) {fs : List Frame} {es : List Edit}
    (h : ∀ front, front <+: es → 1 ≤ fs.length + rise front) (es' : List Edit) :
  ∃ gs ps, (gs.length : Int) = fs.length + rise es
    ∧ (s.under fs).edits es = (s.assign ps).under gs
    ∧ passing s.depth (s.under fs) (es ++ es')
        = ps ++ passing s.depth ((s.assign ps).under gs) es'
  := by
  induction es generalizing s fs with
  | nil => exact ⟨fs, [], by simp [rise], rfl, rfl⟩
  | cons e es ih =>
    have hrise : ∀ front, rise (e :: front) = e.rise + rise front := fun _ => List.sum_cons
    have hfs : fs ≠ [] := by
      rintro rfl
      cases h [] List.nil_prefix
    obtain ⟨gs, ps, hlength, hedit, hpassing⟩ := exists_edit_under s e hfs
    have hfront : ∀ front, front <+: es → 1 ≤ gs.length + rise front := by
      intro front hfront
      have hall := h (e :: front) ((List.prefix_cons_inj e).2 hfront)
      rw [hrise] at hall
      omega
    obtain ⟨gs', ps', hlength', hedits, hpassing'⟩ := ih (s.assign ps) hfront
    have hassign : (s.assign ps).assign ps' = s.assign (ps ++ ps') := List.foldl_append.symm
    rw [depth_assign] at hpassing'
    refine ⟨gs', ps ++ ps', ?_, ?_, ?_⟩
    · rw [hlength', hlength, hrise]
      omega
    · rw [edits_cons, hedit, hedits, hassign]
    · rw [List.cons_append, hpassing, hpassing', hassign, List.append_assoc]

/-- Nested edits come to their passing assignments. -/
theorem edits_eq_assign {es : List Edit} (h : Nested es) (s : Scope) :
  s.edits es = s.assign (passing s.depth s es)
  := by
  obtain ⟨body, rfl, hfront, hbody⟩ := h
  have hwithin : ∀ front, front <+: body → 1 ≤ (([[]] : List Frame).length : Int) + rise front := by
    intro front h
    have hrise := hfront front h
    rw [List.length_singleton]
    omega
  obtain ⟨gs, ps, hlength, hedits, hpassing⟩ := exists_edits_under s hwithin [.pop]
  obtain ⟨f, rfl⟩ : ∃ f, gs = [f] := by
    rw [hbody, List.length_singleton] at hlength
    apply List.length_eq_one_iff.1
    omega
  have hps : passing s.depth s (.push :: (body ++ [.pop])) = ps := by
    change passing s.depth (s.under [[]]) (body ++ [.pop]) = ps
    rw [hpassing]
    apply List.append_nil
  rw [hps, edits_cons, edits_append]
  change ((s.under [[]]).edits body).edits [.pop] = _
  rw [hedits]
  rfl

/-! ### The depth -/

/-- The number of frames after an edit, of which the outermost one always stays. -/
def Edit.level (depth : Nat) : Edit → Nat
  | push => depth + 1
  | pop => max 1 (depth - 1)
  | bind _ _ => depth
  | set _ _ => depth

theorem depth_edit (s : Scope) (e : Edit) :
  (s.edit e).depth = e.level s.depth
  := by
  cases e with
  | push => rfl
  | pop =>
    simp only [edit, Scope.pop, depth, Edit.level, List.length_tail]
    omega
  | bind name v => apply depth_bind
  | set name v => apply depth_set

theorem depth_edits (s : Scope) (es : List Edit) :
  (s.edits es).depth = es.foldl Edit.level s.depth
  := by
  induction es generalizing s with
  | nil => rfl
  | cons e es ih => rw [edits_cons, ih, depth_edit, List.foldl_cons]

/-- Nested edits leave as many frames as there were. The frame of each name, where it is looked up,
binds it to the last value that they assign to it while no frame further in binds it; where they
assign none, and in all other frames, it is bound as it was. Any edits at all leave one frame at
least. -/
theorem nested_edits (s : Scope) :
  (∀ es, Nested es → (s.edits es).depth = s.depth
    ∧ ∀ name, (s.bindings name)[s.home name]? = some (s.get? name)
      ∧ (s.edits es).bindings name
        = match (passing s.depth s es).reverse.lookup name with
          | some v => (s.bindings name).set (s.home name) (some v)
          | none => s.bindings name)
    ∧ ∀ es, 1 ≤ (s.edits es).depth ∧ (s.edits es).depth = es.foldl Edit.level s.depth
  := by
  constructor
  · intro es hes
    rw [edits_eq_assign hes]
    refine ⟨depth_assign s _, fun name => ⟨getElem?_home s name, bindings_assign s _ name⟩⟩
  · intro es
    exact ⟨Nat.le_add_left 1 _, depth_edits s es⟩

/-- A scope of two frames, of which the inner one binds a name. -/
def shadow : Scope :=
  ⟨[[("x", .number (.int 0))]], []⟩

/-- Edits that assign to a name before and after they bind it, and to another one within two
frames. -/
def shadowing : List Edit :=
  [.push, .set "x" (.number (.int 1)), .bind "x" (.number (.int 2)),
    .set "x" (.number (.int 3)), .push, .set "x" (.number (.int 4)),
    .set "y" (.number (.int 5)), .pop, .set "y" (.number (.int 6)), .pop]

/-- The inner frame keeps what is assigned to its name before that is bound further in, and the
outer frame the last of what is assigned to the other name. -/
theorem nested_edits_shadowing :
  Nested shadowing
    ∧ (shadow.edits shadowing).bindings "x" = [some (.number (.int 1)), none]
    ∧ (shadow.edits shadowing).bindings "y" = [none, some (.number (.int 6))]
  := by
  have hnested : Nested shadowing := by
    have hinits : ∀ front ∈ shadowing.tail.dropLast.inits, 0 ≤ rise front := by decide
    refine ⟨shadowing.tail.dropLast, rfl, ?_, rfl⟩
    intro front hfront
    exact hinits front ((List.mem_inits _ _).2 hfront)
  obtain ⟨-, hbindings⟩ := (nested_edits shadow).1 shadowing hnested
  refine ⟨hnested, ?_, ?_⟩
  · rw [(hbindings "x").2]
    rfl
  · rw [(hbindings "y").2]
    rfl

end Dice.Scope
