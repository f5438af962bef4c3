import Dice.Console.Command

/-!
# Transcripts

A console answers one line at a time. A command starts with nothing charged to the quota; its
value is written with its total, and its error apart. Other lines show the history, which empties
it, or the values that operators have left, or end the dialogue. A sort that breaks off ends it too,
with a code of its own.
-/

namespace Dice.Console

/-- What a console writes for a line, and the code it ends with if that was the last one. -/
structure Reply where
  out : String
  err : String
  code? : Option UInt32

/-- All that a console has written, and the code it ends with. -/
structure Transcript where
  out : String
  err : String
  code : UInt32

/-- What stands before each line. -/
def prompt : String := "> "

/-- The code of a console that is left, or whose lines are at their end. -/
def success : UInt32 := 0

/-- The code of a console that breaks off. -/
def broken : UInt32 := 101

/-- A reply in the dialogue. -/
def say (out : String) : Reply :=
  ⟨out, "", none⟩

/-- The reply to a command that fails. -/
def complain : EvalError → Reply
  | .contradictoryOrder => ⟨"", EvalError.contradictoryOrder.message ++ "\n", some broken⟩
  | e => ⟨"", "Error: " ++ e.message ++ "\n", none⟩

/-- A line of the history. -/
def showEntry (e : Entry) : String :=
  e.label ++ ": " ++ (Value.list e.result).display ++ "\n"

/-- The binding of a name, if it has one. -/
def showBinding (s : Scope) (name : String) : String :=
  match s.get? name with
  | some v => name ++ " = " ++ v.code ++ "\n"
  | none => ""

/-- A value with its total. -/
def showValue (v : Value) : String :=
  v.display ++ "  (total " ++ v.total.text ++ ")\n"

variable {ρ : Type} [Roller ρ]

/-- The context a command is evaluated in. -/
def fresh (ctx : Context ρ) : Context ρ :=
  { ctx with quota := ctx.quota.map Quota.reset }

/-- Answers the words of a line. -/
def respond (ctx : Context ρ) : List String → Reply × Context ρ
  | [] => (say "", ctx)
  | ["quit"] => (⟨"", "", some success⟩, ctx)
  | ["exit"] => (⟨"", "", some success⟩, ctx)
  | ["history"] => (say (.join (ctx.entries.map showEntry)), ctx.clearHistory)
  | ["vars"] =>
    (say (showBinding ctx.scope Scope.lastDropped ++ showBinding ctx.scope Scope.lastHit), ctx)
  | words =>
    match eval words (fresh ctx) with
    | .ok v ctx => (say (showValue v), ctx)
    | .error e ctx => (complain e, ctx)

/-- Answers a line. -/
def answer (ctx : Context ρ) (line : String) : Reply × Context ρ :=
  respond ctx (Text.words line)

/-- Answers some lines. A prompt stands before each of them and before the end of the lines. -/
def transcript (ctx : Context ρ) : List String → Transcript
  | [] => ⟨prompt, "", success⟩
  | line :: lines =>
    let (reply, ctx) := answer ctx line
    match reply.code? with
    | some code => ⟨prompt ++ reply.out, reply.err, code⟩
    | none =>
      let rest := transcript ctx lines
      ⟨prompt ++ reply.out ++ rest.out, reply.err ++ rest.err, rest.code⟩

end Dice.Console
