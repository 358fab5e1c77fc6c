import Stepper.Text.Basic

/-!
Values of a running program. Objects and scopes live in stores of their own; a value only refers to
an object, and two references are the same object exactly when they are equal.
-/
namespace Stepper.Machine

/-- The place of an object in the heap. -/
structure Ref where
  index : Nat
  deriving DecidableEq, Repr, Inhabited

/-- The place of a scope among the scopes. -/
structure ScopeRef where
  index : Nat
  deriving DecidableEq, Repr, Inhabited

inductive Value where
  | undefined
  | null
  | bool (b : Bool)
  | number (x : Float)
  | text (t : Text)
  | object (r : Ref)
  deriving Inhabited

namespace Value

def ofString (s : String) : Value := .text (Text.ofString s)

def isUndefined : Value → Bool
  | .undefined => true
  | _ => false

/-- Null or undefined. -/
def isNullish : Value → Bool
  | .undefined | .null => true
  | _ => false

def isPrimitive : Value → Bool
  | .object _ => false
  | _ => true

def ref? : Value → Option Ref
  | .object r => some r
  | _ => none

end Value

/-- What errors the machine raises by itself are called. -/
inductive ErrorKind where
  | error | typeError | rangeError | referenceError | syntaxError | evalError
  deriving DecidableEq, Repr

def ErrorKind.name : ErrorKind → String
  | .error => "Error"
  | .typeError => "TypeError"
  | .rangeError => "RangeError"
  | .referenceError => "ReferenceError"
  | .syntaxError => "SyntaxError"
  | .evalError => "EvalError"

def ErrorKind.all : List ErrorKind :=
  [.error, .typeError, .rangeError, .referenceError, .syntaxError, .evalError]

end Stepper.Machine
