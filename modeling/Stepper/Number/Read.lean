import Stepper.Fault
import Stepper.Number.Digits
import Stepper.Number.Binary64
import Stepper.Text.Blank
import Stepper.Text.Case
import Stepper.Text.Digit

/-!
Reading numbers: whole texts (`ofText`), the longest numeric beginning of a text (`parseFloat`,
`parseInt`), and integers in a radix. Decimal digits of every script count in decimals.
-/
namespace Stepper.Number

open Binary64

/-- A decimal as written: its digits before and after the point, and its exponent. -/
structure DecimalText where
  whole : List Nat
  fraction : List Nat
  exponent : Int
  deriving DecidableEq, Repr

def DecimalText.value (d : DecimalText) : Float :=
  ofDecimal (ofDigits 10 (d.whole ++ d.fraction)) (d.exponent - d.fraction.length)

/-- The decimal digits at the front of a text, and the rest. -/
def takeDigits : Text → List Nat × Text
  | [] => ([], [])
  | c :: t =>
    match Text.decimalValue? c with
    | some d => let (ds, rest) := takeDigits t; (d :: ds, rest)
    | none => ([], c :: t)

/-- An optional sign: whether it is a minus, and the rest. -/
def takeSign : Text → Bool × Text
  | 0x2b :: t => (false, t)
  | 0x2d :: t => (true, t)
  | t => (false, t)

/-- `e` or `E`, an optional sign and at least one digit; otherwise nothing is taken. -/
def takeExponent (t : Text) : Int × Text :=
  match t with
  | c :: r =>
    if c == 0x65 || c == 0x45 then
      let (negative, r) := takeSign r
      match takeDigits r with
      | ([], _) => (0, t)
      | (ds, rest) => (withSign negative (ofDigits 10 ds), rest)
    else (0, t)
  | [] => (0, [])

/-- An unsigned decimal at the front: digits with an optional point and fraction, or a point and
digits, then an optional exponent. -/
def takeDecimal (t : Text) : Option (DecimalText × Text) :=
  match takeDigits t with
  | ([], 0x2e :: r) =>
    match takeDigits r with
    | ([], _) => none
    | (fs, r) => let (e, rest) := takeExponent r; some (⟨[], fs, e⟩, rest)
  | ([], _) => none
  | (ds, 0x2e :: r) =>
    let (fs, r) := takeDigits r
    let (e, rest) := takeExponent r
    some (⟨ds, fs, e⟩, rest)
  | (ds, r) => let (e, rest) := takeExponent r; some (⟨ds, [], e⟩, rest)

/-- The longest text of digits that is read in a radix that is no power of two. -/
def maxDigits : Nat := 4300

/-- Digits of every script and blanks as ASCII ones; what else is not ASCII stands for no digit. -/
def asciiForm (c : Nat) : Nat :=
  if c < 127 then c
  else if Text.isBlank c then 0x20
  else match Text.decimalValue? c with
    | some d => 0x30 + d
    | none => 0x3f

def isAsciiBlank (c : Nat) : Bool := (0x09 ≤ c && c ≤ 0x0d) || c == 0x20

/-- Digits with single underscores between them; nothing else may follow. -/
def underscoredDigits? (radix : Nat) : Text → Option (List Nat)
  | [] => none
  | [c] => (charDigit? c).bind fun d => if d < radix then some [d] else none
  | c :: 0x5f :: t => (charDigit? c).bind fun d =>
      if d < radix then (underscoredDigits? radix t).map (d :: ·) else none
  | c :: t => (charDigit? c).bind fun d =>
      if d < radix then (underscoredDigits? radix t).map (d :: ·) else none

def isPowerOfTwo (radix : Nat) : Bool := [2, 4, 8, 16, 32].contains radix

/-- The marker letter that a radix allows after a leading zero. -/
def radixMarker? (radix : Nat) : Option Nat :=
  if radix = 16 then some 0x78 else if radix = 8 then some 0x6f
  else if radix = 2 then some 0x62 else none

def dropMarker (radix : Nat) (t : Text) : Text :=
  match t, radixMarker? radix with
  | 0x30 :: c :: r, some m =>
    if c == m || c == m - 32 then (match r with | 0x5f :: r => r | r => r) else t
  | _, _ => t

/-- An integer with blanks around it, an optional sign, an optional radix marker and single
underscores between its digits. -/
def readInteger (radix : Nat) (t : Text) : Except Fault Int :=
  let t := Text.stripBy isAsciiBlank (t.map asciiForm)
  let (negative, t) := takeSign t
  match underscoredDigits? radix (dropMarker radix t) with
  | none => .error .notAnInteger
  | some ds =>
    if !isPowerOfTwo radix && maxDigits < ds.length then .error (.integerTooLong ds.length)
    else .ok (withSign negative (ofDigits radix ds))

/-- The number nearest to an integer; integers past the range have none. -/
def floatOfInt (n : Int) : Except Fault Float :=
  let x := ofInt n
  if x.isInf then .error .integerOutOfRange else .ok x

def asciiLower (c : Nat) : Nat := if 0x41 ≤ c && c ≤ 0x5a then c + 32 else c

/-- The radix that a leading `0x`, `0o` or `0b` of either case announces. -/
def prefixRadix? : Text → Option Nat
  | 0x30 :: c :: _ =>
    if asciiLower c == 0x78 then some 16
    else if asciiLower c == 0x6f then some 8
    else if asciiLower c == 0x62 then some 2
    else none
  | _ => none

/-- The number a whole text stands for; NaN when it stands for none, zero when it is blank. -/
def ofText (t : Text) : Except Fault Float :=
  let t := Text.stripScript t
  if t.isEmpty then .ok (ofNat 0)
  else if t == Text.ofString "Infinity" || t == Text.ofString "+Infinity" then .ok infinity
  else if t == Text.ofString "-Infinity" then .ok negInfinity
  else match prefixRadix? t with
    | some radix =>
      match readInteger radix (t.drop 2) with
      | .ok n => floatOfInt n
      | .error _ => .ok nan
    | none =>
      let (negative, r) := takeSign t
      match takeDecimal r with
      | some (d, []) => .ok (negateIf negative d.value)
      | _ => .ok nan

/-- The longest decimal, or signed `Infinity`, at the front of a text. -/
def parseFloat (t : Text) : Float :=
  let (negative, r) := takeSign (Text.stripScript t)
  if Text.startsWith r "Infinity" then negateIf negative infinity
  else match takeDecimal r with
    | some (d, _) => negateIf negative d.value
    | none => nan

/-- Whether a code point is a digit of the radix in either case; the Kelvin sign has the small form
`k`. -/
def isRadixDigit (radix : Nat) (c : Nat) : Bool :=
  match Text.lowerPoint c with
  | [l] => match charDigit? l with
    | some d => d < radix
    | none => false
  | _ => false

/-- The longest integer in a radix at the front of a text, after blanks and a sign. A radix of zero
is sixteen after `0x` and ten otherwise. -/
def parseInt (t : Text) (radix : Int) : Except Fault Float :=
  let (negative, t) := takeSign (Text.stripScript t)
  let hex := (radix == 0 || radix == 16) && prefixRadix? t == some 16
  let t := if hex then t.drop 2 else t
  let radix := if hex then 16 else if radix == 0 then 10 else radix
  if radix < 2 || 36 < radix then .ok nan else
    let ds := t.takeWhile (isRadixDigit radix.toNat)
    if ds.isEmpty then .ok nan else do
      let n ← readInteger radix.toNat ds
      let x ← floatOfInt n
      .ok (if negative then ofInt (-1) * x else ofNat 1 * x)

end Stepper.Number
