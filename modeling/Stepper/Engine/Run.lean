import Stepper.Engine.Session
import Stepper.Instrument.Strategy
import Stepper.Syntax.Diagnosis

/-!
Runs of a session: an engine is claimed, follows a program to its end, and is free again, whatever
happened. A run gives a trace unless nobody can say how it ended: a source that cannot be read or
decorated, an observer that fails, or an end that no rule of the language covers. An engine that was
claimed for a source which cannot be decorated is given free as it was.
-/
namespace Stepper.Engine

open Execution Machine Syntax

structure Options where
  /-- Steps in a second; there is no waiting here, but not every speed makes sense. -/
  speed : Float := 1000
  maxSteps : Option Int := none
  observers : List Observer := []

/-- Why there is no trace. -/
inductive RunError where
  | busy
  | badSpeed (speed : Float)
  | unreadable (f : SyntaxFault)
  /-- The calls of the program do not fit into its text. -/
  | misplaced
  | observerFailed
  | interrupted (i : Interrupt)

def RunError.message : RunError → Text
  | .busy => "An execution is already running"
  | .badSpeed speed => Text.ofString "speed must be positive, got " ++ Number.text speed
  | .unreadable f => f.text
  | .misplaced => Instrument.DecorateError.misplaced.message
  | .observerFailed => "An observer failed"
  | .interrupted (.raised kind message) => Text.ofString (kind.name ++ ": ") ++ message
  | .interrupted _ => []

def ErrorRecord.ofFault (f : SyntaxFault) : ErrorRecord :=
  { name := "SyntaxError", message := f.what.message, line := some f.line, column := some f.column }

/-- An end of a run that is not an exception. -/
def RunError.ofInterrupt : Interrupt → RunError
  | .refused => .observerFailed
  | i => .interrupted i

namespace Session

/-- Records an error and delivers it; the run has failed. -/
def fail (e : ErrorRecord) (s : Session) : Except RunError Status × Session :=
  match
    (s.meanwhile.modifyState fun t => { t with record := t.record.addError e }).deliverBusy
      (.error e) with
  | (true, s) => (.ok .failed, s)
  | (false, s) => (.error .observerFailed, s)

/-- An error of the program, laid to the line of the last step. -/
def failProgram (name message : Text) (s : Session) : Except RunError Status × Session :=
  s.fail { name, message, line := s.state.record.lastLine }

/-- What a run came to whose end is known. -/
def settle : Ending → Session → Except RunError Status × Session
  | .finished, s => (.ok .completed, s)
  | .uncaught name message, s => s.failProgram name message
  | .failed i, s => (.error (.ofInterrupt i), s)

/-- What a run came to. -/
def conclude (p : Program) : Outcome Unit → Session → Except RunError Status × Session
  | .done _ _, s => (.ok .completed, s)
  | .broke .stopped _, s => (.ok .stopped, s)
  | .broke (.fault .nestingTooDeep) _, s =>
    s.failProgram "RangeError" "Maximum call stack size exceeded"
  | .broke i w, s =>
    let (ending, s) := endingOf p host i w s
    settle ending s

/-- Follows a program to its end, and says what the run came to. -/
def follow (p : Program) (s : Session) : Except RunError Status × Session :=
  let (outcome, s) := run p host s
  conclude p outcome s

/-- Follows what was read, if it could be read. -/
def followRead : Except SyntaxFault Program → Session → Except RunError Status × Session
  | .ok p, s => s.follow p
  | .error f, s => s.fail (.ofFault f)

/-- Releases an engine after a run. -/
def release : Except RunError Status → Session → Except RunError Trace × Session
  | .ok status, s =>
    let s := (s.meanwhile.modifyState (·.finish status)).meanwhile
    (.ok (s.state.record.trace s.state.status), s)
  | .error e, s => (.error e, s.meanwhile.modifyState (·.finish .failed))

/-- Runs what was read on an engine that has been claimed, and releases it. -/
def runClaimed (p : Except SyntaxFault Program) (o : Options) (s : Session) :
    Except RunError Trace × Session :=
  let s := (s.meanwhile.modifyState (·.start o.maxSteps)).engage o.observers
  let (outcome, s) := followRead p s
  release outcome s

/-- Claims the engine for a run, if its options make sense and it is free. -/
def claimed {α : Type} (o : Options) (s : Session) (f : Session → Except RunError α × Session) :
    Except RunError α × Session :=
  if o.speed <= 0 then (.error (.badSpeed o.speed), s)
  else
    match s.state.claim? with
    | none => (.error .busy, s)
    | some state => f { s with state }

/-- Runs a source that is decorated already. -/
def executeDecorated (source : String) (o : Options) (s : Session) :
    Except RunError Trace × Session :=
  s.claimed o (runClaimed (read source) o)

/-- Runs a decorated program on the side. -/
def launch (p : Program) (s : Session) : Session := (s.claimed {} (runClaimed (.ok p) {})).2

/-- Releases an engine that was claimed for a source that cannot be read. -/
def rejectClaimed (f : SyntaxFault) (o : Options) (s : Session) : Except RunError Trace × Session :=
  let e := ErrorRecord.ofFault f
  let s := (s.meanwhile.modifyState fun t => { t.reset o.maxSteps with
    record := ({} : Record).addError e, status := .failed, busy := false }).engage o.observers
  match s.deliver launch (.error e) with
  | (true, s) => (.error (.unreadable f), s)
  | (false, s) => (.error .observerFailed, s)

/-- Releases an engine that was claimed for a program that cannot be decorated. -/
def abandonClaimed (s : Session) : Except RunError Trace × Session :=
  (.error .misplaced, s.meanwhile.modifyState State.unclaim)

/-- Decorates a source and runs it. -/
def execute (source : String) (o : Options) (s : Session) : Except RunError Trace × Session :=
  s.claimed o fun s =>
    match read source with
    | .error f => s.rejectClaimed f o
    | .ok p =>
      match Instrument.decorate "" p with
      | .ok text => s.runClaimed (read text) o
      | .error _ => s.abandonClaimed

/-- Decorates a source and runs it on the side: only whether it could begin is known. -/
def start (source : String) (o : Options) (s : Session) : Except RunError Unit × Session :=
  match s.execute source o with
  | (.error .busy, s) => (.error .busy, s)
  | (.error (.badSpeed x), s) => (.error (.badSpeed x), s)
  | (_, s) => (.ok (), s)

end Session
end Stepper.Engine
