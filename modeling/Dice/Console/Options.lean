import Dice.Context
import Dice.Decimal.Integer
import Dice.Roller.Source

/-!
# Options

The options set the limits of the quota and the source of the dice. An option is given once, with
its value in the next argument or behind an equals sign; only replays may be given in several
parts. A limit that is not given is taken from the environment.
-/

namespace Dice.Console

/-- The options of a console. -/
structure Options where
  perCall : Option UInt64
  perLine : Option UInt64
  seed : Option UInt64
  replay : List UInt64

/-- The names of options. -/
inductive Flag where
  | perCall
  | perLine
  | seed
  | replay
deriving DecidableEq

namespace Flag

/-- The option an argument names. -/
def ofName? (s : String) : Option Flag :=
  match s with
  | "--per-roll-limit" => some perCall
  | "--per-function-limit" => some perLine
  | "--seed" => some seed
  | "--replay" => some replay
  | _ => none

/-- The environment variable that stands in for an option. -/
def environment? : Flag → Option String
  | perCall => some "DICE_PER_ROLL_LIMIT"
  | perLine => some "DICE_PER_FUNCTION_LIMIT"
  | _ => none

end Flag

/-- The 64-bit word a text denotes: digits, of which there is at least one, behind an optional
plus sign. -/
def word? (cs : List Char) : Option UInt64 :=
  let n? :=
    match cs with
    | '+' :: ds => Integer.digits? ds
    | ds => Integer.digits? ds
  n?.bind fun n => if n < UInt64.size then some (.ofNat n) else none

/-- The words a text denotes, separated by commas. -/
def words? (cs : List Char) : Option (List UInt64) :=
  (cs.splitOn ',').mapM word?

/-- An argument before its first equals sign, and what comes behind that sign. -/
def splitArgument (s : String) : String × Option (List Char) :=
  let differs (c : Char) : Bool := c != '='
  (.ofList (s.toList.takeWhile differs), (s.toList.dropWhile differs).tail?)

/-- The options that are given, each with its value. Two dashes may end them. -/
def settings? : List String → Option (List (Flag × List Char))
  | [] => some []
  | ["--"] => some []
  | arg :: args =>
    let (name, value?) := splitArgument arg
    match Flag.ofName? name, value?, args with
    | some flag, some value, args => (settings? args).map ((flag, value) :: ·)
    | some flag, none, next :: args =>
      if next.toList.head? = some '-' then none
      else (settings? args).map ((flag, next.toList) :: ·)
    | _, _, _ => none

/-- The values that are given for an option. -/
def valuesOf (flag : Flag) (settings : List (Flag × List Char)) : List (List Char) :=
  (settings.filter (·.1 = flag)).map (·.2)

/-- The word that is given for an option, in the arguments or the environment. Anything but one
word is an error. -/
def single? (environment : String → Option String) (flag : Flag)
    (settings : List (Flag × List Char)) : Option (Option UInt64) :=
  match valuesOf flag settings with
  | [] =>
    match flag.environment?.bind environment with
    | none => some none
    | some s => (word? s.toList).map some
  | [cs] => (word? cs).map some
  | _ => none

/-- The options that arguments and environment give. A seed excludes a replay. -/
def Options.ofArguments? (environment : String → Option String) (args : List String) :
    Option Options := do
  let settings ← settings? args
  let perCall ← single? environment .perCall settings
  let perLine ← single? environment .perLine settings
  let seed ← single? environment .seed settings
  let replay ← (valuesOf .replay settings).mapM words?
  if seed.isSome && !replay.isEmpty then none
  else some ⟨perCall, perLine, seed, replay.flatten⟩

/-- The quota of the options; a limit that is not given does not bind. -/
def Options.quota? (o : Options) : Option Quota :=
  match o.perCall, o.perLine with
  | none, none => none
  | perCall, perLine =>
    let greatest : UInt64 := .ofNat (UInt64.size - 1)
    some (.fresh (perCall.getD greatest) (perLine.getD greatest))

/-- The source of the options, given the generator of a seed, and a source for the case that they
name none. -/
def Options.source {γ : Type} (o : Options) (seeded : UInt64 → γ) (default : Source γ) : Source γ :=
  match Replay.ofList? (o.replay.map UInt64.toNat) with
  | some r => .replay r
  | none =>
    match o.seed with
    | some seed => .generator (seeded seed)
    | none => default

/-- The context a console starts in: it keeps a history. -/
def Options.context {γ : Type} (o : Options) (seeded : UInt64 → γ) (default : Source γ) :
    Context (Source γ) :=
  { (Context.start (o.source seeded default)).withHistory with quota := o.quota? }

end Dice.Console
