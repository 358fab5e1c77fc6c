import Stepper.Number.Binary64

/-!
The arithmetic operations of scripts: those of binary64, with an exact remainder and its own rules
for powers.
-/
namespace Stepper.Number

open Binary64

/-- The remainder of the division towards zero, exact and with the sign of the dividend. -/
def remainder (x y : Float) : Float :=
  match decode x, decode y with
  | .finite s m p, .finite _ n q =>
    if n = 0 then nan else
      -- both as multiples of the smaller power of two
      let e := min p q
      let r := (m * Nat.pow 2 (p - e).toNat) % (n * Nat.pow 2 (q - e).toNat)
      let size :=
        if 0 ≤ e then ofRatio (r * Nat.pow 2 e.toNat) 1 else ofRatio r (Nat.pow 2 (-e).toNat)
      negateIf s size
  | .finite _ _ _, .infinite _ => x
  | _, _ => nan

/-- Powers. One to an infinite power is NaN, zero to a negative power is positive infinity, and so
is every power of finite numbers that is too large, whatever its sign. -/
def power (x y : Float) : Float :=
  if y.isNaN then nan
  else if x.abs == 1 && y.isInf then nan
  else if x == 0 && y < 0 then infinity
  else
    let r := x.pow y
    if x.isFinite && y.isFinite && r.isInf then infinity else r

inductive Operation where
  | subtract | multiply | divide | remainder | power
  deriving DecidableEq, Repr

def Operation.symbol : Operation → String
  | .subtract => "-"
  | .multiply => "*"
  | .divide => "/"
  | .remainder => "%"
  | .power => "**"

def Operation.all : List Operation := [.subtract, .multiply, .divide, .remainder, .power]

def Operation.apply : Operation → Float → Float → Float
  | .subtract => fun x y => x - y
  | .multiply => fun x y => x * y
  | .divide => fun x y => x / y
  | .remainder => Number.remainder
  | .power => Number.power

end Stepper.Number
