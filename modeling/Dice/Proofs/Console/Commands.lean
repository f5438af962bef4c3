import Dice.Console.Command
import Dice.Proofs.Likeness.Equality
import Dice.Proofs.Scope.Loops

/-!
# Commands as programs

A command is a program of one call, or a repeat of such a program. Of its context it looks at nothing
but the values of names, and all that is assigned is what operators assign. So it leaves the frames
as they were, with nothing bound in the outermost one beside what operators leave there.
-/

namespace Dice

/-! ### Programs that neither assign nor bind -/

/-- A program that leaves assignments to its calls, and of its context looks at the values of names
only. -/
inductive Program.Plain {ρ : Type} : Program ρ → Prop
  | done (result : Except EvalError Value) : Plain (.done result)
  | call (c : Call) {next : Except EvalError Step.Result → Program ρ} :
      (∀ result, Plain (next result)) → Plain (.call c next)
  | times (count : Number) {body : Int64 → Program ρ}
      {next : Except EvalError (List Value) → Program ρ} :
      (∀ i, Plain (body i)) → (∀ result, Plain (next result)) → Plain (.times count body next)
  | value (name : String) {next : Option Value → Program ρ} : (∀ v?, Plain (next v?)) →
      Plain (.look fun ctx => next (ctx.scope.get? name))

/-- The frames within `n` repeats of a command: the inner ones bind nothing but the loop index, and
the outermost one nothing but what operators assign. -/
structure Scope.Clean (n : Nat) (s : Scope) : Prop where
  depth : s.inner.length = n
  inner (f : Frame) : f ∈ s.inner → ∀ name, f.binds name → name = loopIndex
  root (name : String) : s.root.binds name → Operator.Slot name

namespace Scope

/-- What operators assign is not bound by repeats. -/
theorem ne_loopIndex {name : String} (h : Operator.Slot name) :
  name ≠ loopIndex
  := by
  rcases h with rfl | rfl <;> decide

namespace Clean

variable {n : Nat} {s : Scope}

theorem set (h : s.Clean n) {name : String} (hname : Operator.Slot name) (v : Value) :
  (s.set name v).Clean n
  := by
  have hnone : setIn? name v s.inner = none := by
    apply setIn?_eq_none
    intro f hf hbinds
    exact ne_loopIndex hname (h.inner f hf name hbinds)
  rw [Scope.set, hnone]
  refine ⟨h.depth, h.inner, ?_⟩
  intro other hother
  rcases (Frame.binds_insert _ _ _ _).1 hother with rfl | hother
  · exact hname
  · exact h.root other hother

theorem enter (h : s.Clean n) (v : Value) :
  (s.push.bind loopIndex v).Clean (n + 1)
  := by
  refine ⟨congrArg (· + 1) h.depth, ?_, h.root⟩
  intro f hf name hbinds
  rcases List.mem_cons.1 hf with rfl | hf
  · rcases (Frame.binds_insert _ _ _ _).1 hbinds with rfl | hempty
    · rfl
    · cases hempty
  · exact h.inner f hf name hbinds

theorem pop (h : s.Clean (n + 1)) :
  s.pop.Clean n
  := by
  refine ⟨?_, ?_, h.root⟩
  · rw [Scope.pop, List.length_tail, h.depth]
    rfl
  · intro f hf
    exact h.inner f (List.mem_of_mem_tail hf)

end Clean

end Scope

namespace Program.Plain

variable {ρ : Type} {p : Program ρ}

variable [Roller ρ]

/-- Plain programs leave the frames as they were. -/
theorem run_clean (h : p.Plain) {n : Nat} {ctx : Context ρ} (hctx : ctx.scope.Clean n) :
  Leaves (fun ctx => ctx.scope.Clean n) (fun _ => True) (p.run ctx)
  := by
  -- The body of a repeat runs within one repeat more, which its frame then leaves.
  induction h generalizing n ctx with
  | done result =>
    cases result with
    | error e => exact hctx
    | ok v => exact ⟨trivial, hctx⟩
  | call c hnext ih =>
    have hset := fun s name v (hname : Operator.Slot name) (hs : Scope.Clean n s) => hs.set hname v
    apply (c.perform_keeps hset hctx).attempt.bind
    intro result ctx' _ _ hctx'
    exact ih result hctx'
  | @times count body next hbody hnext ihbody ihnext =>
    have hleave : ∀ there : Context ρ, there.scope.Clean (n + 1) → there.leave.scope.Clean n :=
      fun _ hthere => hthere.pop
    have htimes : Leaves (fun ctx => ctx.scope.Clean n) (fun vs => ∀ v ∈ vs, True)
        (Play.times count (fun i => (body i).run) ctx) := by
      refine Leaves.times hleave hctx ?_
      intro k vs there _ _ hthere
      exact ihbody _ (hthere.enter _)
    apply htimes.attempt.bind
    intro result ctx' _ _ hctx'
    exact ihnext result hctx'
  | value name hnext ih => exact ih _ hctx

end Program.Plain

/-! ### Commands -/

namespace Console

variable {ρ : Type}

/-- Goes on with the value bound to a name, if there is one. -/
def bindingThen (name : String) (next : Value → Program ρ) : Option Value → Program ρ
  | some v => next v
  | none => .done (.error (.unbound name))

/-- Goes on with the value of a word, if it has one. -/
def operandThen (word : String) (next : Value → Program ρ) : Program ρ :=
  match word.toList with
  | '_' :: _ => .look fun ctx => bindingThen word next (ctx.scope.get? word)
  | _ =>
    match Value.ofText word with
    | .ok v => next v
    | .error e => .done (.error (.unreadable e))

/-- Goes on with the operator of a symbol, if there is one. -/
def operatorThen (symbol : String) (next : Operator → Program ρ) : Program ρ :=
  match Operator.ofSymbol? symbol with
  | some op => next op
  | none => .done (.error (.unknownOperator symbol))

/-- The program of a command. -/
def program : List String → Program ρ
  | "repeat" :: count :: body =>
    operandThen count fun count =>
      .times count.total (fun _ => program body) fun result => .done (result.map .list)
  | ["die", outcome, faces] =>
    operandThen outcome fun outcome =>
    operandThen faces fun faces =>
      match Die.ofValues outcome faces with
      | .ok d => .done (.ok d.toValue)
      | .error why => .done (.error (.die why))
  | [op, only] =>
    operatorThen op fun op =>
    operandThen only fun only =>
      .call (.applyOne op only) (Program.andThen fun v => .done (.ok v))
  | [op, left, right] =>
    operandThen left fun left =>
    operandThen right fun right =>
    operatorThen op fun op =>
      .call (.apply op left right) (Program.andThen fun v => .done (.ok v))
  | _ => .done (.error .malformedCommand)

theorem plain_operandThen (word : String) {next : Value → Program ρ} (h : ∀ v, (next v).Plain) :
  (operandThen word next).Plain
  := by
  rw [operandThen]
  split
  · apply Program.Plain.value word
    intro v?
    cases v? with
    | none => apply Program.Plain.done
    | some v => apply h
  · split
    · apply h
    · apply Program.Plain.done

theorem plain_operatorThen (symbol : String) {next : Operator → Program ρ}
    (h : ∀ op, (next op).Plain) :
  (operatorThen symbol next).Plain
  := by
  rw [operatorThen]
  split
  · apply h
  · apply Program.Plain.done

theorem plain_andThen {next : Value → Program ρ} (h : ∀ v, (next v).Plain)
    (result : Except EvalError Step.Result) :
  (Program.andThen next result).Plain
  := by
  cases result with
  | ok r => apply h
  | error e => apply Program.Plain.done

/-- The program of every command is plain. -/
theorem plain_program (words : List String) :
  (program words : Program ρ).Plain
  := by
  fun_induction program words with
  | case1 count body ih =>
    apply plain_operandThen
    intro count
    exact .times _ (fun _ => ih) fun _ => .done _
  | case2 outcome faces =>
    apply plain_operandThen
    intro outcome
    apply plain_operandThen
    intro faces
    split <;> apply Program.Plain.done
  | case3 op only h =>
    apply plain_operatorThen
    intro op
    apply plain_operandThen
    intro only
    apply Program.Plain.call
    apply plain_andThen
    intro v
    apply Program.Plain.done
  | case4 op left right hrepeat hdie =>
    apply plain_operandThen
    intro left
    apply plain_operandThen
    intro right
    apply plain_operatorThen
    intro op
    apply Program.Plain.call
    apply plain_andThen
    intro v
    apply Program.Plain.done
  | case5 => apply Program.Plain.done

/-! ### Running commands -/

variable [Roller ρ]

/-- Going on with the value of a word is what follows the evaluation of the word. -/
theorem run_operandThen (word : String) (next : Value → Program ρ) :
  (operandThen word next).run = operand word >>= fun v => (next v).run
  := by
  rw [operandThen]
  split
  · rename_i tail hname
    have hoperand : operand word = ((Operand.name word).resolve none none : Play ρ Value) := by
      simp only [operand, hname]
    rw [hoperand]
    funext ctx
    have hresolve : ((Operand.name word).resolve none none : Play ρ Value) ctx
        = (match ctx.scope.get? word with
          | some v => pure v
          | none => throw (.unbound word) : Play ρ Value) ctx := rfl
    have hlook : (Program.look fun ctx => bindingThen word next (ctx.scope.get? word)).run ctx
        = (bindingThen word next (ctx.scope.get? word)).run ctx := rfl
    rw [hlook, Play.bind_apply, hresolve]
    cases ctx.scope.get? word <;> rfl
  · rename_i htext
    have hoperand : operand word = ((Operand.text word).resolve none none : Play ρ Value) := by
      rw [operand]
      split
      · rename_i tail hname
        exact absurd hname (htext tail)
      · rfl
    rw [hoperand, Operand.resolve]
    cases Value.ofText word <;> rfl

theorem run_operatorThen (symbol : String) (next : Operator → Program ρ) :
  (operatorThen symbol next).run = Play.operator symbol >>= fun op => (next op).run
  := by
  rw [operatorThen, Play.operator]
  cases Operator.ofSymbol? symbol <;> rfl

/-- A call whose value ends the program. -/
theorem run_call_done {c : Call} {m : Play ρ Value}
    (h : c.perform = m >>= fun v => pure (Step.Result.value v)) :
  (Program.call c (Program.andThen fun v => .done (.ok v))).run = m
  := by
  funext ctx
  rw [Program.run_call, Play.result, Play.after, h, Play.bind_apply]
  cases m ctx <;> rfl

/-- The program of a command evaluates it. -/
theorem run_program (words : List String) :
  (program words : Program ρ).run = eval words
  := by
  fun_induction program words with
  | case1 count body ih =>
    rw [run_operandThen, eval]
    congr 1
    funext count ctx
    rw [Program.run_times, ih, Play.result, Play.after, Play.bind_apply]
    cases Play.times count.total (fun _ => eval body) ctx <;> rfl
  | case2 outcome faces =>
    rw [run_operandThen, eval]
    congr 1
    funext outcome
    rw [run_operandThen]
    congr 1
    funext faces
    rw [putDown]
    cases Die.ofValues outcome faces <;> rfl
  | case3 op only h =>
    rw [run_operatorThen, eval]
    · congr 1
      funext op
      rw [run_operandThen]
      congr 1
      funext only
      exact run_call_done rfl
    · exact h
  | case4 op left right hrepeat hdie =>
    rw [run_operandThen, eval]
    · congr 1
      funext left
      rw [run_operandThen]
      congr 1
      funext right
      rw [run_operatorThen]
      congr 1
      funext op
      exact run_call_done rfl
    · exact hrepeat
    · exact hdie
  | case5 words h₁ h₂ h₃ h₄ =>
    rw [eval]
    · rfl
    all_goals assumption

end Console

end Dice
