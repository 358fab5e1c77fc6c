import Stepper.Machine.Property

/-!
What the functions of all families share: their arguments, callbacks, and positions that count from
the end when they are negative.
-/
namespace Stepper.Builtin

open Machine Machine.Action

/-- An argument; one that was not given is undefined. -/
def arg (args : List Value) (i : Nat) : Value := (args[i]?).getD .undefined

def natValue (n : Nat) : Value := .number (Binary64.ofNat n)
def intValue (n : Int) : Value := .number (Binary64.ofInt n)

/-- A function given as an argument. -/
def callback (f : Value) : Action Unit := do
  if !(← isCallable f) then typeError ((← toText f) ++ (" is not a function" : Text))

/-- A position in a sequence of some length: from the end if negative, and never outside. -/
def clampPosition (i : Int) (length : Nat) : Nat :=
  if i < 0 then (length + i).toNat else min i.toNat length

def position (v : Value) (length : Nat) (default : Nat) : Action Nat := do
  if v.isUndefined then return default
  return clampPosition (← plainInteger v) length

end Stepper.Builtin
