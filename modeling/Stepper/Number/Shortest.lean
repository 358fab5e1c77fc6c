import Stepper.Number.Binary64

/-!
The shortest decimal that reads back as a given number, and of those the nearest. The reals that
round to `m · 2^q` form an interval; on the grids of one digit, two digits, … the first grid with a
point in the interval gives the digits.
-/
namespace Stepper.Number

/-- The decimal `coefficient · 10^exponent`. -/
structure Decimal where
  coefficient : Nat
  exponent : Int
  deriving DecidableEq, Repr

/-- A positive number as a ratio, with the half gaps to its neighbours below and above, all over one
denominator. -/
structure Interval where
  value : Nat
  below : Nat
  above : Nat
  den : Nat
  /-- The ends of the interval round to the number itself. -/
  closed : Bool

def Interval.of (m : Nat) (q : Int) : Interval :=
  let below := if m == Nat.pow 2 52 && q > -1074 then 1 else 2
  let s := q - 2
  let k := if 0 ≤ s then Nat.pow 2 s.toNat else 1
  ⟨4 * m * k, below * k, 2 * k, if 0 ≤ s then 1 else Nat.pow 2 (-s).toNat, m % 2 == 0⟩

/-- Whether `num / den` of another ratio lies in the interval. -/
def Interval.holds (i : Interval) (num den : Nat) : Bool :=
  let x := num * i.den
  let lo := (i.value - i.below) * den
  let hi := (i.value + i.above) * den
  if i.closed then lo ≤ x && x ≤ hi else lo < x && x < hi

/-- The greatest `e` with `10^e ≤ num / den`. -/
def decimalExponent (num den : Nat) : Int :=
  let est : Int := ((Nat.log2 num : Int) - Nat.log2 den) * 30103 / 100000
  let atLeast (e : Int) : Bool :=
    if 0 ≤ e then den * Nat.pow 10 e.toNat ≤ num else den ≤ num * Nat.pow 10 (-e).toNat
  if atLeast (est + 1) then est + 1 else if atLeast est then est else est - 1

/-- The digits of the number on the grid `10^k`, if a grid point reads back. -/
def Interval.onGrid (i : Interval) (k : Int) : Option Nat :=
  let num := if 0 ≤ k then i.value else i.value * Nat.pow 10 (-k).toNat
  let den := if 0 ≤ k then i.den * Nat.pow 10 k.toNat else i.den
  let c := num / den
  let readsBack (c : Nat) : Bool :=
    if 0 ≤ k then i.holds (c * Nat.pow 10 k.toNat) 1 else i.holds c (Nat.pow 10 (-k).toNat)
  let twice := 2 * (num % den)
  let lowNearer := twice < den || (twice == den && c % 2 == 0)
  if lowNearer then
    if readsBack c then some c else if readsBack (c + 1) then some (c + 1) else none
  else
    if readsBack (c + 1) then some (c + 1) else if readsBack c then some c else none

/-- The first grid, from `10^k` downwards, with a point that reads back. -/
def Interval.search (i : Interval) : Nat → Int → Decimal
  | 0, k => ⟨0, k⟩
  | fuel + 1, k =>
    match i.onGrid k with
    | some (c + 1) => ⟨c + 1, k⟩
    | _ => i.search fuel (k - 1)

/-- The decimal with the zeros at the end of its coefficient moved into the exponent. -/
def Decimal.trim : Nat → Decimal → Decimal
  | 0, d => d
  | fuel + 1, d =>
      if d.coefficient % 10 = 0 then trim fuel ⟨d.coefficient / 10, d.exponent + 1⟩ else d

/-- The shortest decimal that reads back as `m · 2^q`, for `m` above zero. Seventeen digits always
do, so the search is bounded. -/
def shortest (m : Nat) (q : Int) : Decimal :=
  let i := Interval.of m q
  (i.search 18 (decimalExponent i.value i.den)).trim 20

end Stepper.Number
