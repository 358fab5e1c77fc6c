import Stepper.Number.Digits
import Stepper.Number.Shortest

/-!
The text of numbers: the shortest form that reads back, forms with a fixed count of places, and
forms in other radixes.
-/
namespace Stepper.Number

open Binary64

def signText (negative : Bool) : Text := if negative then "-" else []

/-- Lays out digits whose first has the weight `10^e`: positional for weights from `10^-6` below
`10^21`, otherwise one digit, the rest after a point, and an exponent with its sign. -/
def layout (digits : Text) (e : Int) : Text :=
  if 0 ≤ e ∧ e < 21 then
    let whole := e.toNat + 1
    if digits.length ≤ whole then digits ++ List.replicate (whole - digits.length) 0x30
    else digits.take whole ++ 0x2e :: digits.drop whole
  else if -7 < e ∧ e < 0 then
    ("0." : Text) ++ List.replicate ((-e).toNat - 1) 0x30 ++ digits
  else
    let mantissa := if digits.length ≤ 1 then digits else digits.take 1 ++ 0x2e :: digits.drop 1
    mantissa ++ 0x65 :: (if 0 < e then 0x2b else 0x2d) :: natText 10 e.natAbs

/-- The text of a number, as a script prints it. Zero has no sign. -/
def text (x : Float) : Text :=
  match decode x with
  | .nan => "NaN"
  | .infinite s => if s then "-Infinity" else "Infinity"
  | .finite s m q =>
    if m = 0 then "0" else
      let d := shortest m q
      let digits := natText 10 d.coefficient
      signText s ++ layout digits (d.exponent + digits.length - 1)

/-- The text of a finite number, positional for weights from `10^-4` below `10^16` and otherwise
with an exponent of two digits or more; a sign shows, also of zero. -/
def plain (x : Float) : Text :=
  match decode x with
  | .nan => "nan"
  | .infinite s => signText s ++ ("inf" : Text)
  | .finite s m q =>
    let d := shortest m q
    let digits := natText 10 d.coefficient
    let e : Int := d.exponent + digits.length - 1
    signText s ++
      if -4 ≤ e ∧ e < 16 then layout digits e
      else
        let mantissa := if digits.length ≤ 1 then digits else digits.take 1 ++ 0x2e :: digits.drop 1
        let power := natText 10 e.natAbs
        let power := if power.length < 2 then 0x30 :: power else power
        mantissa ++ 0x65 :: (if e < 0 then 0x2d else 0x2b) :: power

/-- The text with `places` digits after the point; a half of the last place goes to the even
neighbour. The sign bit shows, also where all digits are zero. -/
def fixed (x : Float) (places : Nat) : Text :=
  match decode x with
  | .nan => "nan"
  | .infinite s => signText s ++ ("inf" : Text)
  | .finite s m q =>
    let num := m * Nat.pow 10 places
    let units := if 0 ≤ q then num * Nat.pow 2 q.toNat else roundDiv num (Nat.pow 2 (-q).toNat)
    let digits := natText 10 units
    let digits := List.replicate (places + 1 - digits.length) 0x30 ++ digits
    let whole := digits.length - places
    signText s ++ (if places = 0 then digits else digits.take whole ++ 0x2e :: digits.drop whole)

/-- Digits of a fraction, at most `n` of them, each step in number arithmetic. -/
def fractionDigits (radix : Nat) : Nat → Float → List Nat
  | 0, _ => []
  | n + 1, f =>
    if f == 0 then [] else
      let f := f * ofNat radix
      let d := ((truncate? f).getD 0).toNat
      d :: fractionDigits radix n (f - ofNat d)

/-- A finite number in a radix, with at most twenty digits after the point. -/
def radixText (x : Float) (radix : Nat) : Text :=
  let whole := (truncate? x).getD 0
  let fraction := (x - ofInt whole).abs
  intText radix whole ++
    if fraction == 0 then [] else 0x2e :: (fractionDigits radix 20 fraction).map digitChar

end Stepper.Number
