import Stepper.Text.Quoted
import Stepper.Text.Visible

/-!
Text as it is shown in messages: between single quotes, or double ones where only those do not occur
in it. Backslashes, the quote and all that has no visible form are escaped.
-/
namespace Stepper.Text

def shownPoint (quote c : Nat) : Text :=
  if c = quote ∨ c = 0x5c then [0x5c, c]
  else if c = 0x0a then [0x5c, 0x6e]
  else if c = 0x0d then [0x5c, 0x72]
  else if c = 0x09 then [0x5c, 0x74]
  else if isVisible c then [c]
  else if c < 0x100 then 0x5c :: 0x78 :: hexDigits 2 c
  else if c < 0x10000 then 0x5c :: 0x75 :: hexDigits 4 c
  else 0x5c :: 0x55 :: hexDigits 8 c

def shown (t : Text) : Text :=
  let quote : Nat := if t.any (· == 0x27) && !t.any (· == 0x22) then 0x22 else 0x27
  quote :: t.flatMap (shownPoint quote) ++ [quote]

end Stepper.Text
