import Stepper.Number.Binary64

/-!
Bitwise operations on numbers. They are worked out on integers of any size, which have their digits
in two's complement: a negative integer has ones without end. A number goes in by its last 32
digits, with NaN and the infinities as zero, and each operation brings its result back to a word in
a way of its own.
-/
namespace Stepper.Number

open Binary64

/-- The digits of the first number that are not in the second. -/
def withoutDigits (m n : Nat) : Nat := m ^^^ (m &&& n)

def intAnd : Int → Int → Int
  | .ofNat m, .ofNat n => .ofNat (m &&& n)
  | .ofNat m, .negSucc n => .ofNat (withoutDigits m n)
  | .negSucc m, .ofNat n => .ofNat (withoutDigits n m)
  | .negSucc m, .negSucc n => .negSucc (m ||| n)

def intOr : Int → Int → Int
  | .ofNat m, .ofNat n => .ofNat (m ||| n)
  | .ofNat m, .negSucc n => .negSucc (withoutDigits n m)
  | .negSucc m, .ofNat n => .negSucc (withoutDigits m n)
  | .negSucc m, .negSucc n => .negSucc (m &&& n)

def intXor : Int → Int → Int
  | .ofNat m, .ofNat n => .ofNat (m ^^^ n)
  | .ofNat m, .negSucc n => .negSucc (m ^^^ n)
  | .negSucc m, .ofNat n => .negSucc (m ^^^ n)
  | .negSucc m, .negSucc n => .ofNat (m ^^^ n)

/-- The last 32 digits of an integer. -/
def lowWord (n : Int) : Int := intAnd n 0xFFFFFFFF

/-- A word from `2^31` on stands for a negative integer. -/
def signed (n : Int) : Int := if n ≥ 0x80000000 then n - 0x100000000 else n

def toInt32 (x : Float) : Int :=
  match truncate? x with
  | none => 0
  | some n => signed (lowWord n)

def toUint32 (x : Float) : Int :=
  match truncate? x with
  | none => 0
  | some n => lowWord n

inductive BitOperation where
  | and | or | xor | shiftLeft | shiftRight | shiftRightZero
  deriving DecidableEq, Repr

def BitOperation.symbol : BitOperation → String
  | .and => "&"
  | .or => "|"
  | .xor => "^"
  | .shiftLeft => "<<"
  | .shiftRight => ">>"
  | .shiftRightZero => ">>>"

def BitOperation.all : List BitOperation :=
  [.and, .or, .xor, .shiftLeft, .shiftRight, .shiftRightZero]

/-- A shift is by the last five digits of the second number. -/
def shiftCount (y : Float) : Nat := (intAnd (toUint32 y) 31).toNat

def leftShift (x y : Float) : Float := ofInt (signed (lowWord (toInt32 x <<< shiftCount y)))

def BitOperation.apply (o : BitOperation) (x y : Float) : Float :=
  match o with
  | .and => ofInt (toInt32 (ofInt (intAnd (toInt32 x) (toInt32 y))))
  | .or => ofInt (toInt32 (ofInt (intOr (toInt32 x) (toInt32 y))))
  | .xor => ofInt (toInt32 (ofInt (intXor (toInt32 x) (toInt32 y))))
  | .shiftLeft => leftShift x y
  | .shiftRight => ofInt (toInt32 x >>> shiftCount y)
  | .shiftRightZero => ofInt (toUint32 x >>> shiftCount y)

def complement (x : Float) : Float := ofInt (toInt32 (ofInt (~~~(toInt32 x))))

end Stepper.Number
