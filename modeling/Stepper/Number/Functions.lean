import Stepper.Number.Arithmetic

/-!
Functions of numbers beyond the arithmetic operations. Roundings go through integers and so lose the
sign of zero; where a function has no value, or one too large to be finite, the answer is NaN.
-/
namespace Stepper.Number

open Binary64

/-- The integer that `f` picks, as a number. -/
def viaInteger (f : Float → Option Int) (x : Float) : Float :=
  match f x with
  | some n => ofInt n
  | none => x

def floor : Float → Float := viaInteger floor?
def ceil : Float → Float := viaInteger fun x => (floor? (-x)).map Neg.neg
def trunc : Float → Float := viaInteger truncate?

/-- The integer not above `x + 1/2`. -/
def round (x : Float) : Float := if x.isFinite then floor (x + 0.5) else x

def sign (x : Float) : Float := if x.isNaN || x == 0 then x else if x > 0 then 1 else -1

/-- NaN in place of an infinity that a finite number gave. -/
def bounded (f : Float → Float) (x : Float) : Float :=
  let y := f x
  if x.isFinite && y.isInf then nan else y

/-- Logarithms of zero are negative infinity. -/
def logarithm (f : Float → Float) (x : Float) : Float := if x == 0 then negInfinity else f x

def cbrt (x : Float) : Float := negateIf (signBit x) (x.abs.pow (1.0 / 3.0))

/-- The greatest number, the first of several; NaN if one is. -/
def maximum (xs : List Float) : Float :=
  if xs.any Float.isNaN then nan
  else match xs with
    | [] => negInfinity
    | x :: xs => xs.foldl (fun m x => if x > m then x else m) x

def minimum (xs : List Float) : Float :=
  if xs.any Float.isNaN then nan
  else match xs with
    | [] => infinity
    | x :: xs => xs.foldl (fun m x => if x < m then x else m) x

/-! A length is summed in scaled numbers, with the rounding errors of each sum kept beside it, and
corrected once by the difference between the sum and the square of its root. -/

/-- A sum and the errors of its three kinds of terms. -/
structure Compensated where
  sum : Float
  high : Float
  cross : Float
  low : Float

/-- The two halves of a number's digits. -/
def halves (x : Float) : Float × Float :=
  let t := x * 134217729.0
  let high := t - (t - x)
  (high, x - high)

def Compensated.addHigh (c : Compensated) (x : Float) : Compensated :=
  let sum := c.sum + x
  { c with sum, high := c.high + ((c.sum - sum) + x) }

def Compensated.addCross (c : Compensated) (x : Float) : Compensated :=
  let sum := c.sum + x
  { c with sum, cross := c.cross + ((c.sum - sum) + x) }

def Compensated.addLow (c : Compensated) (x : Float) : Compensated :=
  let sum := c.sum + x
  { c with sum, low := c.low + ((c.sum - sum) + x) }

def Compensated.total (c : Compensated) : Float := c.sum - 1.0 + (c.high + c.cross + c.low)

def Compensated.addSquare (c : Compensated) (x : Float) : Compensated :=
  let (high, low) := halves x
  let c := (c.addHigh (high * high)).addCross (2.0 * high * low)
  { c with low := c.low + low * low }

/-- The power of two whose exponent lies just above a positive finite number. -/
def exponentAbove (x : Float) : Int :=
  match decode x with
  | .finite _ m q => if m = 0 then 0 else q + (Nat.log2 m : Int) + 1
  | _ => 0

def twoToThe (e : Int) : Float :=
  if 0 ≤ e then ofRatio (Nat.pow 2 e.toNat) 1 else ofRatio 1 (Nat.pow 2 (-e).toNat)

/-- The length of a vector of two or more finite numbers, not all zero, the greatest being `most`.
-/
def scaledLength (xs : List Float) (most : Float) : Float :=
  let e := exponentAbove most
  if -1023 ≤ e then
    let scale := twoToThe (-e)
    let c := xs.foldl (fun c x => c.addSquare (x * scale)) (⟨1.0, 0.0, 0.0, 0.0⟩ : Compensated)
    let h := c.total.sqrt
    let (high, low) := halves h
    let c := ((c.addHigh (-high * high)).addCross (-2.0 * high * low)).addLow (-low * low)
    (h + c.total / (2.0 * h)) / scale
  else
    let c := xs.foldl (fun c x => let x := x / most; c.addHigh (x * x))
      (⟨1.0, 0.0, 0.0, 0.0⟩ : Compensated)
    most * (c.sum - 1.0 + c.high).sqrt

/-- The length of a vector. -/
def hypot (xs : List Float) : Float :=
  let xs := xs.map Float.abs
  let most := xs.foldl (fun m x => if x > m then x else m) 0.0
  if xs.any Float.isInf then infinity
  else if xs.any Float.isNaN then nan
  else if most == 0 || xs.length ≤ 1 then most
  else scaledLength xs most

end Stepper.Number
