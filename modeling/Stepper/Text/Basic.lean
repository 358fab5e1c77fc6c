/-!
Text of a traced program: a list of code points. Lone surrogates are allowed, so `String` is not
enough; every text a program can build has exactly one list of code points, and lengths and
indexes count its members.
-/
namespace Stepper

/-- Code points, surrogates included. -/
abbrev Text := List Nat

namespace Text

def ofString (s : String) : Text := s.toList.map Char.toNat

instance : Coe String Text := ⟨ofString⟩

def isSurrogate (c : Nat) : Bool := 0xD800 ≤ c && c ≤ 0xDFFF

/-- The text as a `String`; a code point that is no character becomes U+FFFD. -/
def toStr (t : Text) : String :=
  String.ofList (t.map fun c =>
    if isSurrogate c || c > 0x10FFFF then Char.ofNat 0xFFFD else Char.ofNat c)

/-- Drops the members of `p` from both ends. -/
def stripBy (p : Nat → Bool) (t : Text) : Text :=
  ((t.dropWhile p).reverse.dropWhile p).reverse

def stripEndBy (p : Nat → Bool) (t : Text) : Text :=
  (t.reverse.dropWhile p).reverse

/-- Whether `p` stands at the front of the text. -/
def startsWith : Text → Text → Bool
  | _, [] => true
  | [], _ :: _ => false
  | c :: t, d :: p => c == d && startsWith t p

@[simp] theorem startsWith_nil (t : Text) : startsWith t [] = true := by cases t <;> rfl

/-- The index of the first occurrence of `p`, counted from `i`. -/
def findFrom (p : Text) : Text → Nat → Option Nat
  | [], i => if p.isEmpty then some i else none
  | c :: t, i => if startsWith (c :: t) p then some i else findFrom p t (i + 1)

/-- The first index at or after `start` where `p` occurs. -/
def find? (t p : Text) (start : Nat) : Option Nat :=
  if start ≤ t.length then findFrom p (t.drop start) start else none

/-- The last index where `p` occurs. -/
def findLast? (t p : Text) : Option Nat :=
  (findFrom p.reverse t.reverse 0).map fun i => t.length - i - p.length

def contains (t p : Text) : Bool := (t.find? p 0).isSome

def endsWith (t p : Text) : Bool := startsWith t.reverse p.reverse

/-- Order by code points, a shorter text before its extensions. -/
def compare : Text → Text → Ordering
  | [], [] => .eq
  | [], _ :: _ => .lt
  | _ :: _, [] => .gt
  | a :: s, b :: t => if a < b then .lt else if b < a then .gt else compare s t

/-- The members from index `i` up to, not including, index `j`. -/
def slice (t : Text) (i j : Nat) : Text := (t.take j).drop i

def replicate (t : Text) (n : Nat) : Text := (List.replicate n t).flatten

/-- The pieces joined with `sep` between them. -/
def join (sep : Text) : List Text → Text
  | [] => []
  | [t] => t
  | t :: u :: ts => t ++ sep ++ join sep (u :: ts)

end Text
end Stepper
