import Stepper.Text.Quoted

/-!
The calls that a decorated program makes to be observed, and how they are written: a step with its
number and line, the capture of a variable, entry into and exit from a function, and a request to
sample memory.
-/
namespace Stepper.Instrument

inductive Hook where
  | step | track | enter | exit | memory
  deriving DecidableEq, Repr

/-- The global function a program calls. -/
def Hook.name : Hook → String
  | .step => "__step"
  | .track => "__trackVariable"
  | .enter => "__enterFunction"
  | .exit => "__exitFunction"
  | .memory => "__updateMemory"

def Hook.all : List Hook := [.step, .track, .enter, .exit, .memory]

structure StepMarker where
  id : Nat
  line : Nat
  deriving DecidableEq, Repr

structure FunctionMarker where
  name : String
  parameters : List String
  deriving DecidableEq, Repr

def quoted (s : String) : String := (Text.quoteAscii (Text.ofString s)).toStr

def StepMarker.call (m : StepMarker) : String := s!"{Hook.step.name}({m.id}, {m.line});"

def captureCall (name : String) : String := s!"{Hook.track.name}({quoted name}, {name});"

def captureCalls (names : List String) : String := " ".intercalate (names.map captureCall)

def FunctionMarker.enterCall (m : FunctionMarker) : String :=
  let values := ", ".intercalate m.parameters
  s!"{Hook.enter.name}({quoted m.name}, [{values}]);"

def exitCall : String := s!"{Hook.exit.name}();"

end Stepper.Instrument
