import Stepper.Execution.Run

/-!
What can be seen of a run from outside: the sequence of its hook and console calls, each with the
values captured at that moment, and how the run ended. The host that records them never interferes.
-/
namespace Stepper.Execution

open Syntax Machine

inductive Event where
  | step (id line : Int)
  | capture (name : Text) (value : Captured)
  | enter (name : Text) (arguments : List Json.Tree)
  | exit (value : Captured)
  | memory
  | console (kind : ConsoleKind) (values : List Captured)

/-- How a run ended. -/
inductive Ending where
  | finished
  /-- By an exception of the program, as it describes itself. -/
  | uncaught (name message : Text)
  /-- By anything else, be it while the exception described itself. -/
  | failed (i : Interrupt)

/-- What is seen of a call; text that was formatted for a host is not looked at. -/
def eventOf : Call → Except Fault (Option Event)
  | .step id line => .ok (some (.step id line))
  | .track h room name v => do return some (.capture name (← h.capture room v))
  | .enter h room name vs => do return some (.enter name (← vs.mapM (h.export_ room)))
  | .exit h room v => do return some (.exit (← h.capture room v))
  | .memory => .ok (some .memory)
  | .console k (.values h room vs) => do return some (.console k (← vs.mapM (h.capture room)))
  | .console _ (.text _) => .ok none

/-- The host that only records; the latest event comes first. -/
def recorder : Host (List Event) where
  wantsText := false
  reply c es := match eventOf c with
    | .ok e => (.proceed, e.toList ++ es)
    | .error f => (.fault f, es)

/-- The end that an interrupt makes; to describe an exception may run more of the program. -/
def endingOf {σ : Type} (p : Program) (host : Host σ) (i : Interrupt) (w : World) (s : σ) :
    Ending × σ :=
  match details p host.wantsText i w with
  | none => (.failed i, s)
  | some c =>
    match c.drive host s with
    | (.done (name, message) _, s) => (.uncaught name message, s)
    | (.broke i _, s) => (.failed i, s)

/-- Runs a program and says how it ended, with the state that it left the host in. -/
def runToEnd {σ : Type} (p : Program) (host : Host σ) (s : σ) : Ending × σ :=
  match run p host s with
  | (.done _ _, s) => (.finished, s)
  | (.broke i w, s) => endingOf p host i w s

/-- The events of a run in their order, and its end. -/
def observe (p : Program) : List Event × Ending :=
  let (ending, es) := runToEnd p recorder []
  (es.reverse, ending)

end Stepper.Execution
