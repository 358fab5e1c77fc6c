import Stepper.Engine.Control
import Stepper.Execution.Event

/-!
An engine among its observers. An observer hears the records of one channel and answers each with
requests to the engine. Others act on the engine whenever the run lets go of it: what they ask for
between two acts of the run, and while it is held, is given in advance. A session keeps a log of all
that was heard and asked.
-/
namespace Stepper.Engine

open Execution Machine Syntax

/-- What an observer can hear of. -/
inductive Channel where
  | step | console | error
  deriving DecidableEq, Repr

def Channel.name : Channel → String
  | .step => "step"
  | .console => "console"
  | .error => "error"

def Channel.all : List Channel := [.step, .console, .error]

inductive Notice where
  | step (r : StepRecord)
  | console (r : ConsoleRecord)
  | error (r : ErrorRecord)

def Notice.channel : Notice → Channel
  | .step _ => .step
  | .console _ => .console
  | .error _ => .error

/-- Two ways to ask for a run; the second is served on the side, and its failures are lost. -/
inductive Launch where
  | execute | start
  deriving DecidableEq, Repr

def Launch.name : Launch → String
  | .execute => "execute"
  | .start => "start"

/-- What an observer may do. -/
inductive Request where
  | control (c : Control)
  /-- Asks for a run of a decorated program. -/
  | launch (l : Launch) (p : Program)
  /-- Fails, and hears nothing more of the run. -/
  | fail

structure Observer where
  name : String
  channel : Channel
  /-- The requests with which a notice is answered, by its number counted from one. -/
  answer : Nat → List Request
  /-- How many notices were heard. -/
  heard : Nat := 0

/-- What the flags of an engine show. -/
structure Reading where
  status : Status
  running : Bool
  paused : Bool
  step : Nat

def State.reading (s : State) : Reading := ⟨s.status, s.running, s.paused, s.record.count⟩

inductive Entry where
  | heard (who : String) (n : Notice)
  | controlled (c : Control) (after : Reading)
  /-- A control from outside. -/
  | woken (c : Control) (after : Reading)
  | refused (l : Launch)
  | launched (l : Launch)
  | failed

structure Session where
  state : State := {}
  /-- All observers there have been. -/
  observers : Array Observer := #[]
  /-- Observers of every run. -/
  lasting : List Nat := []
  /-- Observers of one run. -/
  own : List Nat := []
  /-- Controls that others give while a run is held. -/
  wakes : List Control := []
  /-- Controls that others give before a run turns to the engine again, or to an observer, or looks
  whether it is still held: one list for each time it does. -/
  others : List (List Control) := []
  /-- The latest entry first. -/
  log : List Entry := []
  deriving Inhabited

namespace Session

def note (s : Session) (e : Entry) : Session := { s with log := e :: s.log }

def modifyState (s : Session) (f : State → State) : Session := { s with state := f s.state }

def control (s : Session) (c : Control) : Session := s.modifyState (·.apply c)

def subscribe (s : Session) (o : Observer) : Session :=
  { s with observers := s.observers.push o, lasting := s.lasting ++ [s.observers.size] }

/-- Makes some observers those of the present run. -/
def engage (s : Session) (os : List Observer) : Session :=
  { s with observers := s.observers ++ os.toArray
           own := List.range' s.observers.size os.length }

/-- Those who hear a channel: the lasting observers in their order, then those of the run. -/
def audience (s : Session) (c : Channel) : List Nat :=
  (s.lasting ++ s.own).filter fun i => (s.observers[i]?).any (·.channel == c)

/-- A control from outside. -/
def wake (s : Session) (c : Control) : Session :=
  let s := s.control c
  s.note (.woken c s.state.reading)

/-- Lets others act before the run goes on. -/
def meanwhile (s : Session) : Session :=
  match s.others with
  | [] => s
  | cs :: others => cs.foldl wake { s with others }

/-- Waits while the run is held, as long as others may still act; in the end it is resumed. -/
def await (s : Session) (wakes : List Control) : Session :=
  if !s.state.isHeld then { s with wakes }
  else
    match wakes with
    | [] => { s.wake .resume with wakes := [] }
    | c :: wakes => (s.wake c).meanwhile.await wakes

/-- Serves requests until one fails. `launch` runs a program on an engine that is free. -/
def serve (launch : Program → Session → Session) : List Request → Session → Bool × Session
  | [], s => (true, s)
  | .control c :: rs, s =>
    let s := s.control c
    serve launch rs (s.note (.controlled c s.state.reading))
  | .launch l p :: rs, s =>
    if s.state.busy then serve launch rs (s.note (.refused l))
    else serve launch rs ((launch p s).note (.launched l))
  | .fail :: _, s => (false, s.note .failed)

/-- Lets one observer hear a notice. -/
def tell (launch : Program → Session → Session) (n : Notice) (i : Nat) (s : Session) :
    Bool × Session :=
  match s.observers[i]? with
  | none => (true, s)
  | some o =>
    let s := { s with observers := s.observers.modify i fun o => { o with heard := o.heard + 1 } }
    serve launch (o.answer (o.heard + 1)) (s.note (.heard o.name n))

/-- Lets observers hear a notice, one after the other, until one fails. -/
def tellAll (launch : Program → Session → Session) (n : Notice) :
    List Nat → Session → Bool × Session
  | [], s => (true, s)
  | i :: is, s =>
    match tell launch n i s.meanwhile with
    | (true, s) => tellAll launch n is s
    | (false, s) => (false, s)

def deliver (launch : Program → Session → Session) (n : Notice) (s : Session) : Bool × Session :=
  tellAll launch n (s.audience n.channel) s

/-- Delivery during a run, when the engine is busy and nobody can launch another. -/
def deliverBusy (n : Notice) (s : Session) : Bool × Session := deliver (fun _ s => s) n s

def reply : Bool × Session → Reply × Session
  | (true, s) => (.proceed, s)
  | (false, s) => (.refuse, s)

def step (id line : Int) (s : Session) : Reply × Session :=
  if !s.state.running then (.stop, s)
  else
    let s := s.await s.wakes
    match s.state.pass id line with
    | (false, state) => (.stop, { s with state })
    | (true, state) => reply
      (({ s with state } : Session).deliverBusy (.step (s.state.record.nextStep id line)))

def write (kind : ConsoleKind) (message : Text) (s : Session) : Reply × Session :=
  let r : ConsoleRecord := ⟨kind, message⟩
  reply ((s.modifyState fun e => { e with record := e.record.write r }).deliverBusy (.console r))

def anonymous : Text := "anonymous"

/-- What a call that nobody hears of changes in the record, if its values can be captured. -/
def recording : Call → Except Fault (Record → Record)
  | .track h room name v => do
    let c ← h.capture room v
    return fun r => r.capture name c
  | .enter h room name args => do
    let arguments ← args.mapM (h.export_ room)
    return fun r => r.enter ⟨if name.isEmpty then anonymous else name, arguments⟩
  | .exit .. => .ok Record.exit
  | .memory => .ok Record.measure
  | _ => .ok id

/-- Takes down a call that nobody hears of. -/
def takeDown (c : Call) (s : Session) : Reply × Session :=
  match recording c with
  | .ok f => (.proceed, s.modifyState fun e => { e with record := f e.record })
  | .error f => (.fault f, s)

def hear (c : Call) (s : Session) : Reply × Session :=
  let s := s.meanwhile
  match c with
  | .step id line => s.step id line
  | .console kind (.text t) => s.write kind t
  | c => s.takeDown c

/-- An engine as the host of a run. -/
def host : Host Session where
  wantsText := true
  reply := hear

end Session
end Stepper.Engine
