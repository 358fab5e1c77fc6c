import Stepper.Text.Basic

/-!
Three sets of blanks: those a script strips from numbers and texts, those between the tokens of a
source, and the wider set of the Unicode white space property with the information separators.
-/
namespace Stepper.Text

/-- Blanks that `trim` and the reading of numbers strip. -/
def isScriptBlank (c : Nat) : Bool :=
  [0x20, 0x09, 0x0a, 0x0d, 0x0b, 0x0c, 0xa0, 0xfeff, 0x2028, 0x2029].contains c

/-- The Unicode white space property. -/
def isWhiteSpace (c : Nat) : Bool :=
  (0x09 ≤ c && c ≤ 0x0d) || c == 0x20 || c == 0x85 || c == 0xa0 || c == 0x1680 ||
  (0x2000 ≤ c && c ≤ 0x200a) || c == 0x2028 || c == 0x2029 || c == 0x202f ||
  c == 0x205f || c == 0x3000

/-- White space and the four information separators. -/
def isBlank (c : Nat) : Bool := isWhiteSpace c || (0x1c ≤ c && c ≤ 0x1f)

/-- Blanks between the tokens of a source. -/
def isSourceBlank (c : Nat) : Bool :=
  isWhiteSpace c || c == 0xfeff || c == 0x2060 || c == 0x200b

def stripScript (t : Text) : Text := stripBy isScriptBlank t

end Stepper.Text
