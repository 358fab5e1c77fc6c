import Stepper.OrderedMap
import Stepper.Machine.Export

/-!
The records of a run: its steps, what it wrote to the console, its errors. A step record holds the
latest captured value of every variable and the functions that had been entered and not yet left.
-/
namespace Stepper.Engine

open Machine

/-- The life of an engine. -/
inductive Status where
  | idle | running | paused | completed | failed | stopped
  deriving DecidableEq, Repr, Inhabited

def Status.name : Status → String
  | .idle => "idle"
  | .running => "running"
  | .paused => "paused"
  | .completed => "completed"
  | .failed => "failed"
  | .stopped => "stopped"

/-- A function that has been entered. -/
structure Frame where
  name : Text
  arguments : List Json.Tree

structure StepRecord where
  /-- Steps are numbered from one. -/
  number : Nat
  /-- The number of the marker in the source. -/
  id : Int
  line : Int
  /-- In the order of their first capture. -/
  vars : OrderedMap Text Captured
  /-- The innermost function first. -/
  stack : List Frame
  memory : Nat

structure ConsoleRecord where
  kind : ConsoleKind
  message : Text

structure ErrorRecord where
  name : Text
  message : Text
  line : Option Int
  /-- Known of errors in the text of a source only. -/
  column : Option Nat := none

/-- An error in one line; a line number of zero is not shown. -/
def ErrorRecord.text (e : ErrorRecord) : Text :=
  let place := match e.line with
    | none | some 0 => []
    | some n => Text.ofString s!" (line {n})"
  e.name ++ (": " : Text) ++ e.message ++ place

/-- All that is known of a run that has ended. -/
structure Trace where
  status : Status
  steps : List StepRecord
  console : List ConsoleRecord
  errors : List ErrorRecord
  peakMemory : Nat

/-- What has been recorded so far; lists have the latest record first. -/
structure Record where
  steps : List StepRecord := []
  console : List ConsoleRecord := []
  errors : List ErrorRecord := []
  /-- The number of steps so far. -/
  count : Nat := 0
  lastLine : Option Int := none
  vars : OrderedMap Text Captured := []
  /-- The innermost function first. -/
  stack : List Frame := []
  memory : Nat := 0
  peakMemory : Nat := 0
  deriving Inhabited

namespace Record

/-- What a variable and an entered function add to the memory in use. -/
def variableCost : Nat := 8
def frameCost : Nat := 16

def memoryInUse (r : Record) : Nat :=
  r.vars.length * variableCost + r.stack.length * frameCost

/-- Measures the memory in use. -/
def measure (r : Record) : Record :=
  { r with memory := r.memoryInUse, peakMemory := max r.peakMemory r.memoryInUse }

/-- What the next step record will be. -/
def nextStep (r : Record) (id line : Int) : StepRecord :=
  ⟨r.count + 1, id, line, r.vars, r.stack, r.memoryInUse⟩

def addStep (r : Record) (id line : Int) : Record :=
  { r.measure with
    steps := r.nextStep id line :: r.steps, count := r.count + 1, lastLine := some line }

/-- Only a measuring step notices a new variable. -/
def capture (r : Record) (name : Text) (c : Captured) : Record :=
  { r with vars := r.vars.set name c }

def enter (r : Record) (f : Frame) : Record := ({ r with stack := f :: r.stack } : Record).measure

def exit (r : Record) : Record := ({ r with stack := r.stack.tail } : Record).measure

def write (r : Record) (m : ConsoleRecord) : Record := { r with console := m :: r.console }

def addError (r : Record) (e : ErrorRecord) : Record := { r with errors := e :: r.errors }

def trace (r : Record) (s : Status) : Trace :=
  ⟨s, r.steps.reverse, r.console.reverse, r.errors.reverse, r.peakMemory⟩

@[simp] theorem count_addStep (r : Record) (id line : Int) :
    (r.addStep id line).count = r.count + 1 := rfl

@[simp] theorem steps_addStep (r : Record) (id line : Int) :
    (r.addStep id line).steps = r.nextStep id line :: r.steps := rfl

end Record
end Stepper.Engine
