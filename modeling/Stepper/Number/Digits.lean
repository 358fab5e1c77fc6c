import Stepper.Text.Basic

/-!
Positional notation: the digits of a natural number in a radix, and the value of a list of digits.
Each undoes the other.
-/
namespace Stepper.Number

/-- The digits of `n`, most significant first. -/
def digitsIn (radix n : Nat) : List Nat :=
  if radix < 2 ∨ n < radix then [n] else digitsIn radix (n / radix) ++ [n % radix]
termination_by n
decreasing_by
  rename_i h
  have : radix ≥ 2 ∧ n ≥ radix := by omega
  exact Nat.div_lt_self (by omega) (by omega)

/-- The value of digits read from the left. -/
def ofDigits (radix : Nat) (ds : List Nat) : Nat :=
  ds.foldl (fun n d => n * radix + d) 0

theorem ofDigits_append_singleton (radix : Nat) (ds : List Nat) (d : Nat) :
    ofDigits radix (ds ++ [d]) = ofDigits radix ds * radix + d := by
  simp [ofDigits]

@[simp] theorem ofDigits_digitsIn (radix n : Nat) : ofDigits radix (digitsIn radix n) = n := by
  fun_induction digitsIn radix n with
  | case1 n h => simp [ofDigits]
  | case2 n h ih => rw [ofDigits_append_singleton, ih, Nat.div_add_mod']

/-- The character of a digit: `0` to `9`, then `a` to `z`. -/
def digitChar (d : Nat) : Nat := if d < 10 then 0x30 + d else 0x57 + d

/-- The value of an ASCII digit or letter of either case. -/
def charDigit? (c : Nat) : Option Nat :=
  if 0x30 ≤ c ∧ c ≤ 0x39 then some (c - 0x30)
  else if 0x61 ≤ c ∧ c ≤ 0x7a then some (c - 0x57)
  else if 0x41 ≤ c ∧ c ≤ 0x5a then some (c - 0x37)
  else none

theorem charDigit?_digitChar {d : Nat} (h : d < 36) : charDigit? (digitChar d) = some d := by
  unfold charDigit? digitChar
  by_cases h10 : d < 10
  · simp only [h10, if_true]
    rw [if_pos (by omega)]; simp
  · simp only [h10, if_false]
    rw [if_neg (by omega), if_pos (by omega)]
    congr 1; omega

/-- The digits of `n` as text. -/
def natText (radix n : Nat) : Text := (digitsIn radix n).map digitChar

def intText (radix : Nat) (n : Int) : Text :=
  if n < 0 then 0x2d :: natText radix n.natAbs else natText radix n.natAbs

end Stepper.Number
