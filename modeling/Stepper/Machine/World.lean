import Stepper.Machine.Export

/-!
The state of a run, what can cut an action short, and the host that watches a run from outside. The
host hears of hook calls and console calls and answers each; an answer can end the run, and has no
other part in what a program does.
-/
namespace Stepper.Machine

structure World where
  heap : Heap := {}
  scopes : Scopes := {}
  /-- The number of function bodies being run. -/
  depth : Nat := 0

/-- Why an action ended without a value. -/
inductive Interrupt where
  /-- A value thrown by the program. -/
  | thrown (v : Value)
  /-- An error raised by the machine; it becomes an object when the program catches it. -/
  | raised (kind : ErrorKind) (message : Text)
  | returned (v : Value)
  | left (label : Option String)
  | continued (label : Option String)
  /-- An optional link met null or undefined. -/
  | cutShort
  /-- The host ended the run. No part of the program sees it. -/
  | stopped
  /-- An observer of the host failed. -/
  | refused
  | fault (f : Fault)
  deriving Inhabited

/-- The arguments of a console call: values with the frames there are to write them, or one
formatted text. -/
inductive ConsoleMessage where
  | values (h : Heap) (room : Nat) (vs : List Value)
  | text (t : Text)

/-- What the host is told. Values come with the heap that holds their objects, and with the frames
that are left to go through them. -/
inductive Call where
  | step (id line : Int)
  | track (h : Heap) (room : Nat) (name : Text) (v : Value)
  | enter (h : Heap) (room : Nat) (name : Text) (args : List Value)
  | exit (h : Heap) (room : Nat) (v : Value)
  | memory
  | console (kind : ConsoleKind) (m : ConsoleMessage)

inductive Reply where
  | proceed
  | stop
  | refuse
  /-- What was told makes no sense to the host. -/
  | fault (f : Fault)
  deriving DecidableEq, Repr

/-- What a reply ends a run with. -/
def Reply.interrupt? : Reply → Option Interrupt
  | .proceed => none
  | .stop => some .stopped
  | .refuse => some .refused
  | .fault f => some (.fault f)

structure Host (σ : Type) where
  /-- Whether console calls are formatted for the host. -/
  wantsText : Bool
  reply : Call → σ → Reply × σ

/-- The objects that the machine itself refers to. -/
structure Realm where
  objectProto : Ref
  functionProto : Ref
  arrayProto : Ref
  textProto : Ref
  numberProto : Ref
  booleanProto : Ref
  mapProto : Ref
  setProto : Ref
  dateProto : Ref
  errors : List (ErrorKind × Ref)
  deriving Inhabited

end Stepper.Machine
