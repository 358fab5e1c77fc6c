import Stepper.Builtin.Basic
import Stepper.Number.Functions

/-!
The global functions that read and test numbers, the functions of numbers and of booleans, and those
of `Math`.
-/
namespace Stepper.Builtin

open Machine Machine.Action Binary64

def callGlobal (f : GlobalFunction) (args : List Value) : Action Value := do
  match f with
  | .parseInt =>
    let t ← toText (arg args 0)
    let radix ← match arg args 1 with
      | .undefined => pure 0
      | v => toInteger v
    return .number (← ofExcept (Number.parseInt t radix))
  | .parseFloat => return .number (Number.parseFloat (← toText (arg args 0)))
  | .isNaN => return .bool (← toNumber (arg args 0)).isNaN
  | .isFinite => return .bool (← toNumber (arg args 0)).isFinite

def thisNumber (this : Value) : Action Float := do
  match this with
  | .number x => return x
  | _ => typeError "Number.prototype method called on incompatible receiver"

/-- Whether a value is a number with a property. -/
def numberWith (v : Value) (p : Float → Bool) : Value := match v with
  | .number x => .bool (p x)
  | _ => .bool false

def isSafe (x : Float) : Bool := match toInt? x with
  | some n => n.natAbs ≤ Nat.pow 2 53 - 1
  | none => false

/-- From this size on numbers are not printed with fixed places. -/
def fixedBound : Float := ofNat (Nat.pow 10 21)

def toFixed (this digits : Value) : Action Text := do
  let x ← thisNumber this
  let places ← toInteger digits
  if places < 0 ∨ 100 < places then
    raise .rangeError "toFixed() digits argument must be between 0 and 100"
  if !x.isFinite || x.abs >= fixedBound then return Number.text x
  return Number.fixed x places.toNat

def numberToText (this radix : Value) : Action Text := do
  let x ← thisNumber this
  let radix ← match radix with
    | .undefined => pure 10
    | v => toInteger v
  if radix < 2 ∨ 36 < radix then
    raise .rangeError "toString() radix must be between 2 and 36"
  if radix == 10 || !x.isFinite then return Number.text x
  return Number.radixText x radix.toNat

def callNumber (f : NumberFunction) (this : Value) (args : List Value) : Action Value := do
  let v := arg args 0
  match f with
  | .isInteger => return numberWith v isInteger
  | .isSafeInteger => return numberWith v isSafe
  | .isFinite => return numberWith v Float.isFinite
  | .isNaN => return numberWith v Float.isNaN
  | .toFixed => return .text (← toFixed this v)
  | .toString => return .text (← numberToText this v)
  | .valueOf => return .number (← thisNumber this)

def callBoolean (f : BooleanMethod) (this : Value) : Action Value := do
  match this, f with
  | .bool b, .toString => return .ofString (if b then "true" else "false")
  | .bool b, .valueOf => return .bool b
  | _, .toString => typeError "Boolean.prototype.toString requires that 'this' be a Boolean"
  | _, .valueOf => typeError "Boolean.prototype.valueOf requires that 'this' be a Boolean"

/-- The function of one number, where there is one. -/
def numberFunction? (f : MathFunction) : Option (Float → Float) :=
  match f with
  | .abs => some Float.abs
  | .floor => some Number.floor
  | .ceil => some Number.ceil
  | .round => some Number.round
  | .trunc => some Number.trunc
  | .sign => some Number.sign
  | .sqrt => some Float.sqrt
  | .cbrt => some Number.cbrt
  | .exp => some (Number.bounded Float.exp)
  | .log => some (Number.logarithm Float.log)
  | .log2 => some (Number.logarithm Float.log2)
  | .log10 => some (Number.logarithm Float.log10)
  | .sin => some Float.sin
  | .cos => some Float.cos
  | .tan => some Float.tan
  | .asin => some Float.asin
  | .acos => some Float.acos
  | .atan => some Float.atan
  | _ => none

/-- The number that stands for a random one; no run that is compared with another may use it. -/
def fixedRandom : Float := ofRatio 1 2

def callMath (f : MathFunction) (args : List Value) : Action Value := do
  match numberFunction? f with
  | some g => return .number (g (← toNumber (arg args 0)))
  | none =>
    match f with
    | .max => return .number (Number.maximum (← collect toNumber args))
    | .min => return .number (Number.minimum (← collect toNumber args))
    | .pow =>
      let x ← toNumber (arg args 0)
      let y ← toNumber (arg args 1)
      return .number (Number.power x y)
    | .atan2 =>
      let y ← toNumber (arg args 0)
      let x ← toNumber (arg args 1)
      return .number (y.atan2 x)
    | .hypot => return .number (Number.hypot (← collect toNumber args))
    | _ => return .number fixedRandom

end Stepper.Builtin
