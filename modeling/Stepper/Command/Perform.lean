import Stepper.Analysis.Analyze
import Stepper.Analysis.Printer
import Stepper.Command.Arguments
import Stepper.Engine.Run

/-!
What a command does: it reports on a program, prints it decorated, or runs it and prints what is
heard of the run, then how it ended.
-/
namespace Stepper.Command

open Engine Syntax

/-- A part of what is printed; how long a run took is known only where time is. -/
inductive Piece where
  | text (t : Text)
  | duration
  deriving DecidableEq, Repr

structure Output where
  exit : Nat
  out : List Piece
  err : Text
  deriving DecidableEq, Repr

def line (t : Text) : Text := t ++ [0x0a]

/-- The line ends of a file: a carriage return, alone or before a newline, is a newline. -/
def unifyLineEnds : List Char → List Char
  | [] => []
  | '\r' :: '\n' :: cs => '\n' :: unifyLineEnds cs
  | '\r' :: cs => '\n' :: unifyLineEnds cs
  | c :: cs => c :: unifyLineEnds cs

/-- The program that stands in where no file is named. -/
def demo : String := "function fib(n) \x7b
  if (n <= 1) return n;
  return fib(n - 1) + fib(n - 2);
\x7d
console.log(fib(5));
"

/-- The source to work on, and what is printed of it first. -/
def sourceOf : Option String → String × Text
  | some contents => (String.ofList (unifyLineEnds contents.toList), [])
  | none => (demo,
      line (Text.ofString "No file provided. Using built-in demo:\n") ++ line (Text.ofString demo))

def stepLine (r : StepRecord) : Text :=
  let frames := Text.join " > " (r.stack.reverse.map Frame.name)
  let values := Text.join ", " (r.vars.map fun (k, c) => k ++ ("=" : Text) ++ c.value.line)
  Text.ofString s!"[step {r.number}] line {r.line}  " ++
    (if frames.isEmpty then Text.ofString "<main>" else frames) ++ ("  " : Text) ++ values

def consoleLine (r : ConsoleRecord) : Text :=
  Text.ofString ("console." ++ r.kind.name ++ ": ") ++ r.message

def errorLine (e : ErrorRecord) : Text := ("error: " : Text) ++ e.text

/-- What is printed of what was heard, in order. -/
def heardOut : List Entry → Text
  | [] => []
  | .heard _ (.step r) :: es => line (stepLine r) ++ heardOut es
  | .heard _ (.console r) :: es => line (consoleLine r) ++ heardOut es
  | _ :: es => heardOut es

def heardErr : List Entry → Text
  | [] => []
  | .heard _ (.error e) :: es => line (errorLine e) ++ heardErr es
  | _ :: es => heardErr es

/-- How a run ended, with a blank line before it. -/
def summary (t : Trace) : List Piece :=
  [.text (Text.ofString (s!"\n({t.status.name}: {t.steps.length} steps, " ++
      s!"{t.console.length} console messages, peak memory {t.peakMemory}, ")),
    .duration, .text ")\n"]

def syntaxErrorLine (f : SyntaxFault) : Text := line (Text.ofString ("SyntaxError: " ++ f.text))

def failed (before : Text) (err : Text) : Output := ⟨1, [.text before], err⟩

def decorateFailed (before : Text) (e : Instrument.DecorateError) : Output :=
  failed before (line (Text.ofString ("Instrumentation failed: " ++ e.message)))

/-- An observer that asks for nothing. -/
def listener (c : Channel) : Observer := ⟨"", c, fun _ => [], 0⟩

def options (a : Arguments) : Options where
  speed := a.speed
  maxSteps := a.maxSteps
  observers := (if a.verbose then [listener .step] else []) ++ [listener .console, listener .error]

/-- What is printed of a run, from what came of it and the session that it left. -/
def printed (before : Text) : Except RunError Trace × Session → Except RunError Output
  | (.ok t, s) =>
    .ok ⟨if t.status = .failed then 1 else 0,
      [.text before, .text (heardOut s.log.reverse)] ++ summary t, heardErr s.log.reverse⟩
  | (.error (.unreadable f), s) =>
    .ok ⟨1, [.text before, .text (heardOut s.log.reverse)],
        heardErr s.log.reverse ++ syntaxErrorLine f⟩
  | (.error e, _) => .error e

/-- What a command prints, given the contents of its file. -/
def perform (a : Arguments) (contents : Option String) : Except RunError Output :=
  let (source, before) := sourceOf contents
  let reading (f : Program → Except RunError Output) : Except RunError Output :=
    match read source with
    | .error x => .ok (failed before (syntaxErrorLine x))
    | .ok p => f p
  let decorating (f : String → Except RunError Output) : Except RunError Output :=
    reading fun p => match Instrument.decorate a.strategy p with
      | .error .misplaced => .error .misplaced
      | .error e => .ok (decorateFailed before e)
      | .ok output => f output
  match a.mode with
  | .analyze => reading fun p => .ok ⟨0, [.text before, .text (line (Analysis.report p).print)], []⟩
  | .decorate => decorating fun output =>
      .ok ⟨0, [.text before, .text (line (Text.ofString output))], []⟩
  | .run =>
    if a.strategy.isEmpty then printed before (({} : Session).execute source (options a))
    else decorating fun output =>
      printed before (({} : Session).executeDecorated output (options a))

end Stepper.Command
