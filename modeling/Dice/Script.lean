import Dice.Operator.Apply
import Dice.Repeat
import Dice.Value.Reader

/-!
# Scripts

A script is a list of steps in one context. Each step is a single operation, and its operands may
refer to earlier results, to names and to the index of a repeat. A repeat holds a script of its
own.
-/

namespace Dice

/-- An operand of a step. -/
inductive Operand where
  /-- The value of the latest step that had one. -/
  | previous
  /-- The index of the innermost repeat. -/
  | index
  /-- The value bound to a name. -/
  | name (name : String)
  /-- A value given as such. -/
  | constant (v : Value)
  /-- The value a text denotes. -/
  | text (s : String)

/-- An operation on a context. -/
inductive Step where
  | value (v : Operand)
  | roll (count faces : Operand)
  | rollOne (faces : Operand)
  | rollUntil (faces threshold : Operand) (comparator : String)
  | redraw (list threshold : Operand) (comparator : String) (how : Redraw)
  | apply (left right : Operand) (operator : String)
  | applyOne (operand : Operand) (operator : String)
  | times (count : Operand) (body : List Step)
  | lookup (name : String)
  | assign (name : String) (v : Operand)
  | bind (name : String) (v : Operand)
  | push
  | pop
  | charge (n : UInt64)
  | reset
  | history
  | takeHistory

/-- What a step comes to. -/
inductive Step.Result where
  | value (v : Value)
  | parted (p : Parted)
  | binding (v : Option Value)
  | done
  | noQuota
  | entries (es : List Entry)

/-- The value a result hands on to later steps. -/
def Step.Result.value? : Step.Result → Option Value
  | value v => some v
  | parted p => some (.list p.value)
  | _ => none

namespace Operand

/-- The operand written as a text: `$` is the previous value, `#` the index, `@` goes before a
name, and `i` and `f` before a number. -/
def ofText? (s : String) : Option Operand :=
  match s.toList with
  | ['$'] => some previous
  | ['#'] => some index
  | '@' :: cs => some (name (.ofList cs))
  | 'i' :: cs => (Number.ofTyped? ('i' :: cs)).map (constant ∘ .number)
  | 'f' :: cs => (Number.ofTyped? ('f' :: cs)).map (constant ∘ .number)
  | _ => some (text s)

variable {ρ : Type}

/-- The value of an operand, given the index and the previous value. -/
def resolve (index? : Option Int64) (previous? : Option Value) : Operand → Play ρ Value
  | previous =>
    match previous? with
    | some v => return v
    | none => throw .noPrevious
  | index =>
    match index? with
    | some i => return .number (.int i)
    | none => throw .noIndex
  | name n => do
    match (← get).scope.get? n with
    | some v => return v
    | none => throw (.unbound n)
  | constant v => return v
  | text s =>
    match Value.ofText s with
    | .ok v => return v
    | .error e => throw (.unreadable e)

end Operand

/-- The comparator with a given symbol. -/
def Play.comparator {ρ : Type} (s : String) : Play ρ Comparator :=
  match Comparator.ofSymbol? s with
  | some cmp => return cmp
  | none => throw (.unknownComparator s)

/-- The operator with a given symbol. -/
def Play.operator {ρ : Type} (s : String) : Play ρ Operator :=
  match Operator.ofSymbol? s with
  | some op => return op
  | none => throw (.unknownOperator s)

/-- Changes the quota, if there is one. -/
def Play.modifyQuota {ρ : Type} (f : Quota → Quota) : Play ρ Step.Result := do
  match (← get).quota with
  | none => return .noQuota
  | some q =>
    modify fun ctx => { ctx with quota := some (f q) }
    return .done

variable {ρ : Type} [Roller ρ]

mutual

/-- Runs a step, given the index and the previous value. Operands are resolved in order, before a
symbol is looked up. -/
def Step.run (index? : Option Int64) (previous? : Option Value) : Step → Play ρ Step.Result
  | .value v => return .value (← v.resolve index? previous?)
  | .roll count faces => do
    let count ← count.resolve index? previous?
    let faces ← faces.resolve index? previous?
    return .value (.list (← Play.roll count.total faces))
  | .rollOne faces => do
    let faces ← faces.resolve index? previous?
    return .value (← Play.rollOne faces).toValue
  | .rollUntil faces threshold cmp => do
    let faces ← faces.resolve index? previous?
    let threshold ← threshold.resolve index? previous?
    let cmp ← Play.comparator cmp
    return .parted (← Play.rollUntil faces cmp threshold.total)
  | .redraw list threshold cmp how => do
    let list ← list.resolve index? previous?
    let threshold ← threshold.resolve index? previous?
    let cmp ← Play.comparator cmp
    return .value (.list (← Play.redraw list.elements cmp threshold.total how))
  | .apply left right op => do
    let left ← left.resolve index? previous?
    let right ← right.resolve index? previous?
    let op ← Play.operator op
    return .value (← op.apply left right)
  | .applyOne operand op => do
    let operand ← operand.resolve index? previous?
    let op ← Play.operator op
    return .value (← op.applyOne operand)
  | .times count body => do
    let count ← count.resolve index? previous?
    return .value (.list (← Play.times count.total fun i => Step.runAll i previous? body))
  | .lookup name => return .binding ((← get).scope.get? name)
  | .assign name v => do
    let v ← v.resolve index? previous?
    Play.modifyScope (·.set name v)
    return .done
  | .bind name v => do
    let v ← v.resolve index? previous?
    Play.modifyScope (·.bind name v)
    return .done
  | .push => do
    Play.modifyScope (·.push)
    return .done
  | .pop => do
    Play.modifyScope (·.pop)
    return .done
  | .charge n => Play.modifyQuota (·.charge n)
  | .reset => Play.modifyQuota (·.reset)
  | .history => return .entries (← get).entries
  | .takeHistory => do
    let es := (← get).entries
    modify (·.clearHistory)
    return .entries es

/-- Runs the steps of a repeat with its index. They come to the value of the last step that has
one, or to the previous value. -/
def Step.runAll (index : Int64) (previous? : Option Value) : List Step → Play ρ Value
  | [] => Operand.previous.resolve index previous?
  | s :: ss => do
    let r ← Step.run index previous? s
    Step.runAll index (r.value? <|> previous?) ss

end

end Dice
