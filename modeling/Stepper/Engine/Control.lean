import Stepper.Engine.Trace

/-!
The state of an engine and what controls it. An engine is claimed before a run and released after
it; while it runs it can be paused, resumed, stopped, and let one step further. A run passes the
gate before each of its steps, and only there can it be held or ended.
-/
namespace Stepper.Engine

structure State where
  status : Status := .idle
  /-- Claimed and not yet released. -/
  busy : Bool := false
  running : Bool := false
  paused : Bool := false
  /-- Whether one more step may pass while paused. -/
  allowance : Bool := false
  stopRequested : Bool := false
  maxSteps : Option Int := none
  record : Record := {}
  deriving Inhabited

inductive Control where
  | pause | resume | stop | stepForward
  deriving DecidableEq, Repr

def Control.name : Control → String
  | .pause => "pause"
  | .resume => "resume"
  | .stop => "stop"
  | .stepForward => "step_forward"

def Control.all : List Control := [.pause, .resume, .stop, .stepForward]

namespace State

def pause (s : State) : State :=
  if s.running && !s.paused then { s with paused := true, status := .paused } else s

def resume (s : State) : State :=
  if s.paused then
    { s with paused := false, status := if s.running then .running else s.status }
  else s

/-- Ends the run at its next step. -/
def stop (s : State) : State :=
  if s.busy && !s.stopRequested then
    { s with running := false, paused := false, stopRequested := true }
  else s

/-- Lets one more step pass while paused. -/
def stepForward (s : State) : State :=
  if s.running && s.paused then { s with allowance := true } else s

def apply (s : State) : Control → State
  | .pause => s.pause
  | .resume => s.resume
  | .stop => s.stop
  | .stepForward => s.stepForward

/-- Whether a run is held at the gate. -/
def isHeld (s : State) : Bool := s.paused && s.running && !s.allowance

theorem isHeld_resume (s : State) : s.resume.isHeld = false := by
  unfold resume isHeld
  by_cases h : s.paused <;> simp [h]

/-- Whether the limit leaves no room for another step. -/
def atLimit (s : State) : Bool := match s.maxSteps with
  | none => false
  | some n => n ≤ s.record.count

/-- What the gate does with a run that it no longer holds: it ends a run that has been stopped or
is at its limit, and records a step of any other. -/
def pass (s : State) (id line : Int) : Bool × State :=
  if !s.running then (false, s)
  else
    let s := { s with allowance := false }
    if s.atLimit then (false, { s with running := false, paused := false, stopRequested := true })
    else (true, { s with record := s.record.addStep id line })

/-- Claims an engine that is free. -/
def claim? (s : State) : Option State :=
  if s.busy then none else some { s with busy := true, stopRequested := false }

/-- Gives up a claim; nothing that the last run left is changed. -/
def unclaim (s : State) : State := { s with busy := false }

/-- Forgets the last run. -/
def reset (s : State) (maxSteps : Option Int) : State :=
  { s with maxSteps, paused := false, allowance := false, record := {} }

/-- Starts the run for which the engine was claimed. -/
def start (s : State) (maxSteps : Option Int) : State :=
  { s.reset maxSteps with running := !s.stopRequested, status := .running }

/-- The status in which a run ends that has come to `outcome`. -/
def finalStatus (s : State) (outcome : Status) : Status :=
  if outcome = .completed ∧ s.stopRequested then .stopped else outcome

def finish (s : State) (outcome : Status) : State :=
  { s with running := false, busy := false, paused := false, status := s.finalStatus outcome }

end State
end Stepper.Engine
