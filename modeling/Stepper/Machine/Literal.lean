import Stepper.Number.Read
import Stepper.Text.Basic

/-!
Literals: what an escape in a text stands for, the number that a literal denotes, and how surrogates
that escapes have put side by side become one code point.
-/
namespace Stepper.Machine

open Binary64

def codePoint (n : Int) : Except Fault Text :=
  if n < 0 ∨ 0x10FFFF < n then .error .codePointOutOfRange else .ok [n.toNat]

/-- A code point given by hexadecimal digits. -/
def hexPoint (t : Text) : Except Fault Text := do codePoint (← Number.readInteger 16 t)

/-- Escapes of one letter. -/
def simpleEscape? (c : Nat) : Option Nat :=
  if c = 0x6e then some 0x0a
  else if c = 0x74 then some 0x09
  else if c = 0x72 then some 0x0d
  else if c = 0x62 then some 0x08
  else if c = 0x66 then some 0x0c
  else if c = 0x76 then some 0x0b
  else if c = 0x30 then some 0
  else none

def isLineEnd (c : Nat) : Bool := c == 0x0a || c == 0x0d || c == 0x2028 || c == 0x2029

/-- What an escape stands for, its backslash taken away: a line end for nothing, and what has no
meaning of its own for itself. -/
def decodeEscapeBody (body : Text) : Except Fault Text :=
  match body with
  | [] => .ok []
  | c :: rest =>
    match (if rest.isEmpty then simpleEscape? c else none) with
    | some d => .ok [d]
    | none =>
      if c = 0x78 then hexPoint (rest.take 2)
      else if c = 0x75 then
        match rest with
        | 0x7b :: digits => hexPoint digits.dropLast
        | _ => hexPoint (rest.take 4)
      else if isLineEnd c then .ok []
      else .ok body

/-- What an escape stands for, its backslash included. -/
def decodeEscape (t : Text) : Except Fault Text := decodeEscapeBody (t.drop 1)

def isHighSurrogate (c : Nat) : Bool := 0xd800 ≤ c && c ≤ 0xdbff
def isLowSurrogate (c : Nat) : Bool := 0xdc00 ≤ c && c ≤ 0xdfff

/-- Pairs of surrogates become one code point, and lone ones U+FFFD. -/
def joinSurrogates : Text → Text
  | [] => []
  | [c] => [if Text.isSurrogate c then 0xfffd else c]
  | c :: d :: t =>
    if isHighSurrogate c && isLowSurrogate d then
      (0x10000 + (c - 0xd800) * 0x400 + (d - 0xdc00)) :: joinSurrogates t
    else (if Text.isSurrogate c then 0xfffd else c) :: joinSurrogates (d :: t)

/-- Words for numbers that are no decimals. -/
def numberWord? (t : Text) : Option Float :=
  let small := t.map Number.asciiLower
  if small == Text.ofString "inf" || small == Text.ofString "infinity" then some infinity
  else if small == Text.ofString "nan" then some nan
  else none

/-- A signed decimal or word, with blanks around it. -/
def decimalLiteral (t : Text) : Except Fault Float :=
  let t := Text.stripBy Number.isAsciiBlank (t.map Number.asciiForm)
  let (negative, t) := Number.takeSign t
  match numberWord? t with
  | some x => .ok (negateIf negative x)
  | none =>
    match Number.takeDecimal t with
    | some (d, []) => .ok (negateIf negative d.value)
    | _ => .error .malformedNumber

def isOctalDigit (c : Nat) : Bool := 0x30 ≤ c && c ≤ 0x37

/-- A numeric literal: its underscores and a final `n` do not count, `0x`, `0o` and `0b` give the
radix, and a zero before octal digits alone means eight. -/
def numberLiteral (t : Text) : Except Fault Float := do
  let t := t.filter (· != 0x5f)
  let t := if t.getLast? == some 0x6e then t.dropLast else t
  match Number.prefixRadix? t with
  | some radix => Number.floatOfInt (← Number.readInteger radix (t.drop 2))
  | none =>
    if 1 < t.length && t.head? == some 0x30 && t.all isOctalDigit then
      Number.floatOfInt (← Number.readInteger 8 t)
    else decimalLiteral t

end Stepper.Machine
