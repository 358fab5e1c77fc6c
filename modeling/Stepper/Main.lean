import Stepper.Command.Perform

/-!
The command line: arguments and the file they name come in, text and an exit code go out.
-/
namespace Stepper

open Command

/-- The text of a time in milliseconds, to a tenth. -/
def durationText (nanoseconds : Nat) : Text :=
  let tenths := (nanoseconds + 50000) / 100000
  Text.ofString s!"{tenths / 10}.{tenths % 10}ms"

def Command.Piece.print (elapsed : Nat) : Piece → String
  | .text t => t.toStr
  | .duration => (durationText elapsed).toStr

def contents (a : Arguments) : IO (Option String) := do
  match a.file with
  | none | some "" => return none
  | some path => return some (← IO.FS.readFile path)

def commandLine (args : List String) : IO UInt32 := do
  match arguments args with
  | .error .help => IO.println usage; return 0
  | .error .misuse => IO.eprintln usage; return 2
  | .ok a =>
    let source ← contents a
    let started ← IO.monoNanosNow
    match perform a source with
    | .error e => IO.eprintln e.message.toStr; return 1
    | .ok o =>
      let elapsed := (← IO.monoNanosNow) - started
      IO.print (String.join (o.out.map (Piece.print elapsed)))
      IO.eprint o.err.toStr
      return o.exit.toUInt32
where
  usage : String :=
    "usage: [--analyze | --instrument | --run] [--strategy NAME] [--speed N] [--max-steps N] " ++
      "[--verbose] [FILE]"

end Stepper

def main (args : List String) : IO UInt32 := Stepper.commandLine args
