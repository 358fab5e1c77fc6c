import Stepper.Builtin.Basic
import Stepper.Calendar.Reader

/-!
Dates: moments in milliseconds, shown in universal time. The current time is not observed; a fixed
moment stands for it.
-/
namespace Stepper.Builtin

open Machine Machine.Action Calendar

/-- The moment that stands for the current one. -/
def presentMoment : Float := Binary64.ofNat 1700000000000

/-- The time of the date that a method is called on. -/
def thisDate (this : Value) : Action Float := do
  match this with
  | .object r =>
    match (← object r).content with
    | .date time => return time
    | _ => typeError "this is not a Date object."
  | _ => typeError "this is not a Date object."

def momentOf (time : Float) : Action Moment := do
  if !time.isFinite then raise .rangeError "Invalid time value"
  ofExcept (Moment.ofMilliseconds? time)

def dateText (time : Float) : Action Value := do
  if !time.isFinite then return .ofString "Invalid Date"
  return .text (← momentOf time).longText

def constructDate (args : List Value) (newTarget : Value) : Action Value := do
  let time ← match args with
    | [] => pure presentMoment
    | .text t :: _ => pure (milliseconds t)
    | v :: _ => toNumber v
  let proto ← prototypeFor newTarget (← realm).dateProto
  return .object (← alloc { proto := some proto, content := .date time })

/-- A part of a date; an invalid date has none. -/
def datePart (this : Value) (part : Moment → Int) : Action Value := do
  let time ← thisDate this
  if !time.isFinite then return .number Binary64.nan
  return intValue (part (← momentOf time))

def callDate (f : DateFunction) (this : Value) : Action Value := do
  match f with
  | .now => return .number presentMoment
  | .getTime | .valueOf => return .number (← thisDate this)
  | .toISOString | .toJSON => return .text (← momentOf (← thisDate this)).isoText
  | .toString => dateText (← thisDate this)
  | .getFullYear => datePart this fun m => m.date.year
  | .getMonth => datePart this fun m => m.date.month - 1
  | .getDate => datePart this fun m => m.date.day
  | .getDay => datePart this fun m => weekday m.days
  | .getHours => datePart this fun m => m.hour
  | .getMinutes => datePart this fun m => m.minute
  | .getSeconds => datePart this fun m => m.secondOfMinute
  | .getMilliseconds => datePart this fun m => m.millisecond

end Stepper.Builtin
