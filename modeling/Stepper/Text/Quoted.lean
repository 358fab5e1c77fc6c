import Stepper.Number.Digits

/-!
Quoted text: between double quotes, with the quote, the backslash and control characters escaped.
`quote` keeps all else as it is; `quoteAscii` escapes what is not printable ASCII too, code points
past the first plane as two surrogates.
-/
namespace Stepper.Text

/-- The last `n` hexadecimal digits of a code point. -/
def hexDigits : Nat → Nat → Text
  | 0, _ => []
  | n + 1, c => hexDigits n (c / 16) ++ [Number.digitChar (c % 16)]

def unicodeEscape (c : Nat) : Text := 0x5c :: 0x75 :: hexDigits 4 c

/-- The two-character escape of a code point that has one. -/
def shortEscape? (c : Nat) : Option Text :=
  if c = 0x22 then some [0x5c, 0x22]
  else if c = 0x5c then some [0x5c, 0x5c]
  else if c = 0x0a then some [0x5c, 0x6e]
  else if c = 0x0d then some [0x5c, 0x72]
  else if c = 0x09 then some [0x5c, 0x74]
  else if c = 0x08 then some [0x5c, 0x62]
  else if c = 0x0c then some [0x5c, 0x66]
  else none

def quotePoint (c : Nat) : Text :=
  match shortEscape? c with
  | some t => t
  | none => if c < 0x20 then unicodeEscape c else [c]

def quote (t : Text) : Text := 0x22 :: t.flatMap quotePoint ++ [0x22]

def quotePointAscii (c : Nat) : Text :=
  match shortEscape? c with
  | some t => t
  | none =>
    if 0x20 ≤ c ∧ c < 0x7f then [c]
    else if c < 0x10000 then unicodeEscape c
    else
      let v := c - 0x10000
      unicodeEscape (0xd800 + v / 0x400) ++ unicodeEscape (0xdc00 + v % 0x400)

def quoteAscii (t : Text) : Text := 0x22 :: t.flatMap quotePointAscii ++ [0x22]

end Stepper.Text
