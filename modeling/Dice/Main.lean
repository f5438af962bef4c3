import Dice.Console.Input
import Dice.Console.Options
import Dice.Console.Transcript

/-!
# The console as a program

Reads lines from standard input and writes each answer before the next line is read.
-/

namespace Dice.Console

/-- The bytes up to the next line feed, behind those already read, which are given from the last
one back. At the end of the input there are none. -/
partial def readLine (stdin : IO.FS.Stream) (line : List UInt8) : IO (Option (List UInt8)) := do
  match (← stdin.read 1).toList with
  | [] => return if line.isEmpty then none else some line.reverse
  | 10 :: _ => return some line.reverse
  | b :: _ => readLine stdin (b :: line)

/-- Answers lines until one is the last or none can be read. -/
partial def dialogue (ctx : Context (Source StdGen)) : IO UInt32 := do
  let stdout ← IO.getStdout
  stdout.putStr prompt
  stdout.flush
  match (← readLine (← IO.getStdin) []).bind decode? with
  | none => return success
  | some line =>
    let (reply, ctx) := answer ctx line
    stdout.putStr reply.out
    (← IO.getStderr).putStr reply.err
    match reply.code? with
    | some code => return code
    | none => dialogue ctx

/-- The variables of the environment that stand in for options. -/
def environment : IO (String → Option String) := do
  let perCall ← IO.getEnv "DICE_PER_ROLL_LIMIT"
  let perLine ← IO.getEnv "DICE_PER_FUNCTION_LIMIT"
  return fun name =>
    match name with
    | "DICE_PER_ROLL_LIMIT" => perCall
    | "DICE_PER_FUNCTION_LIMIT" => perLine
    | _ => none

/-- What is written where the arguments are no options. -/
def usage : String :=
  "usage: [--per-roll-limit N] [--per-function-limit N] [--seed N | --replay N,N,...]"

end Dice.Console

open Dice.Console in
/-- Starts a console with the options of the arguments, seeded by the clock where they name no
source of dice. -/
def main (args : List String) : IO UInt32 := do
  match Options.ofArguments? (← environment) args with
  | none =>
    (← IO.getStderr).putStrLn usage
    return 2
  | some o =>
    let clock ← IO.monoNanosNow
    dialogue (o.context (fun seed => mkStdGen seed.toNat) (.generator (mkStdGen clock)))
