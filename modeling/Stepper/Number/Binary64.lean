/-!
The 64-bit binary floating point format, taken apart and put together in exact integers.
`decode` gives the sign, the significand and the power of two of a number; truncation, the test
for an integer and the reading of decimals all go through it, so none of them rounds twice.
-/
namespace Stepper.Binary64

/-- What the bits of a number say: `finite s m q` is `±m · 2^q`. -/
inductive Parts where
  | nan
  | infinite (negative : Bool)
  | finite (negative : Bool) (significand : Nat) (exponent : Int)
  deriving DecidableEq, Repr

def partsOfBits (bits : Nat) : Parts :=
  let negative := bits / Nat.pow 2 63 % 2 == 1
  let e : Nat := bits / Nat.pow 2 52 % Nat.pow 2 11
  let f : Nat := bits % Nat.pow 2 52
  if e = 2047 then
    if f = 0 then .infinite negative else .nan
  else if e = 0 then .finite negative f (-1074)
  else .finite negative (f + Nat.pow 2 52) ((e : Int) - 1075)

def decode (x : Float) : Parts := partsOfBits x.toBits.toNat

/-- `m · 2^q` cut to its integer part. -/
def scale (m : Nat) (q : Int) : Nat :=
  if 0 ≤ q then m * Nat.pow 2 q.toNat else m / Nat.pow 2 (-q).toNat

/-- Whether `m · 2^q` is an integer. -/
def scaleExact (m : Nat) (q : Int) : Bool :=
  0 ≤ q || m % Nat.pow 2 (-q).toNat == 0

def withSign (negative : Bool) (n : Nat) : Int := if negative then -(n : Int) else n

/-- The integer part, towards zero; none for a number that is not finite. -/
def truncate? (x : Float) : Option Int :=
  match decode x with
  | .finite s m q => some (withSign s (scale m q))
  | _ => none

/-- The greatest integer not above the number; none for a number that is not finite. -/
def floor? (x : Float) : Option Int :=
  match decode x with
  | .finite s m q =>
    some (if s then
      (if scaleExact m q then -(scale m q : Int) else -(scale m q : Int) - 1) else scale m q)
  | _ => none

/-- The number as an integer, when it is one. -/
def toInt? (x : Float) : Option Int :=
  match decode x with
  | .finite s m q => if scaleExact m q then some (withSign s (scale m q)) else none
  | _ => none

def isInteger (x : Float) : Bool := (toInt? x).isSome

/-- Negative by its sign bit, `-0` included. -/
def signBit (x : Float) : Bool := x.toBits.toNat / Nat.pow 2 63 % 2 == 1

def nan : Float := Float.ofBits 0x7ff8000000000000
def infinity : Float := Float.ofBits 0x7ff0000000000000
def negInfinity : Float := Float.ofBits 0xfff0000000000000

/-- `num / den` rounded to the nearest integer, halves to the even neighbour. -/
def roundDiv (num den : Nat) : Nat :=
  let q := num / den
  let r := num % den
  if 2 * r < den then q else if den < 2 * r then q + 1 else q + q % 2

/-- The bits of the number nearest to `num / den`, halves to the even neighbour. Past the greatest
finite number this is infinity. -/
def bitsOfRatio (num den : Nat) : Nat :=
  if num = 0 || den = 0 then 0 else
    -- `2^(e-1) < num / den < 2^(e+1)`
    let e : Int := (Nat.log2 num : Int) - Nat.log2 den
    let atLeast (k : Int) : Bool :=
      if 0 ≤ k then den * Nat.pow 2 k.toNat ≤ num else den ≤ num * Nat.pow 2 (-k).toNat
    let e := if atLeast e then e else e - 1
    -- the unit of the last place
    let q : Int := if e < -1022 then -1074 else e - 52
    let m :=
      if 0 ≤ q then roundDiv num (den * Nat.pow 2 q.toNat)
      else roundDiv (num * Nat.pow 2 (-q).toNat) den
    -- a carry out of the significand runs into the exponent field, as it should
    let biased : Nat := if e < -1022 then 0 else (e + 1022).toNat
    min (biased * Nat.pow 2 52 + m) (2047 * Nat.pow 2 52)

def ofRatio (num den : Nat) : Float := Float.ofBits (UInt64.ofNat (bitsOfRatio num den))

def negateIf (negative : Bool) (x : Float) : Float := if negative then -x else x

/-- The number nearest to an integer; infinite past the range. -/
def ofInt (n : Int) : Float := negateIf (n < 0) (ofRatio n.natAbs 1)

def ofNat (n : Nat) : Float := ofRatio n 1

/-- The number nearest to `m · 10^e`. The two early exits are exact: they keep the power of ten
small without changing an answer. -/
def ofDecimal (m : Nat) (e : Int) : Float :=
  if m = 0 then ofRatio 0 1 else
    let size : Int := Nat.log2 m / 3 + 1
    if e > 400 then infinity
    else if e + size < -400 then ofRatio 0 1
    else if 0 ≤ e then ofRatio (m * Nat.pow 10 e.toNat) 1 else ofRatio m (Nat.pow 10 (-e).toNat)

end Stepper.Binary64
