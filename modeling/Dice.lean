import Dice.Main
import Dice.Proofs.Choice.Composition
import Dice.Proofs.Choice.Integral
import Dice.Proofs.Choice.Preorder
import Dice.Proofs.Code.Display
import Dice.Proofs.Code.Faithful
import Dice.Proofs.Console.Isolation
import Dice.Proofs.History.Log
import Dice.Proofs.Likeness.Interchange
import Dice.Proofs.Operator.Opposite
import Dice.Proofs.Operator.Symbols
import Dice.Proofs.Play.Consistency
import Dice.Proofs.Play.Dealt
import Dice.Proofs.Roller.Blind
import Dice.Proofs.Play.Redrawn
import Dice.Proofs.Play.Singles
import Dice.Proofs.Play.Until
import Dice.Proofs.Quota.Saturation
import Dice.Proofs.Quota.Truncation
import Dice.Proofs.Reader.Lossless
import Dice.Proofs.Reader.Parsing
import Dice.Proofs.Reader.Progress
import Dice.Proofs.Reader.Spacing
import Dice.Proofs.Reader.Viable
import Dice.Proofs.Scope.Loops
import Dice.Proofs.Scope.Nesting
import Dice.Proofs.Roller.Yields
import Dice.Proofs.Value.Outlines
import Dice.Proofs.Value.Sides
import Dice.Value.Typed
import Dice.Proofs.Play.Replays
