import Stepper.Text.Basic

/-!
Taking texts apart where another text occurs in them, and putting a match into a template.
-/
namespace Stepper.Text

/-- The places where `p` occurs, from the left and without overlap; `skip` counts the members that
still belong to the last occurrence. -/
def occurrencesFrom (p : Text) : Text → Nat → Nat → List Nat
  | [], _, _ => []
  | _ :: t, i, skip + 1 => occurrencesFrom p t (i + 1) skip
  | c :: t, i, 0 =>
    if startsWith (c :: t) p then i :: occurrencesFrom p t (i + 1) (p.length - 1)
    else occurrencesFrom p t (i + 1) 0

/-- The empty text occurs before every member and at the end. -/
def occurrences (t p : Text) : List Nat :=
  if p.isEmpty then List.range (t.length + 1) else occurrencesFrom p t 0 0

/-- The places where `p` is found from `start` on, each search beginning behind the last match;
`searches` are left. -/
def foundFrom (t p : Text) : Nat → Nat → List Nat
  | 0, _ => []
  | searches + 1, start => match t.find? p start with
    | none => []
    | some i => i :: foundFrom t p searches (i + p.length)

/-- The places where `p` is found, one search after the other. -/
def found (t p : Text) : List Nat :=
  if p.isEmpty then List.range (t.length + 1) else foundFrom t p (t.length + 1) 0

/-- The pieces of a text between the given places, each of which is `width` long. -/
def piecesBetween (t : Text) (width : Nat) : List Nat → Nat → List Text
  | [], last => [t.drop last]
  | i :: is, last => slice t last i :: piecesBetween t width is (i + width)

/-- The pieces between the occurrences of a separator; an empty one takes the members apart. -/
def splitOn (t sep : Text) : List Text :=
  if sep.isEmpty then t.map fun c => [c]
  else piecesBetween t sep.length (occurrences t sep) 0

/-- Replaces every occurrence of a text that is not empty. -/
def replaceEach (t p r : Text) : Text := join r (splitOn t p)

/-- A template in which `$&` is replaced by the match first, and then `$$` by one dollar sign. -/
def expandTemplate (found template : Text) : Text :=
  replaceEach (replaceEach template "$&" found) "$$" "$"

end Stepper.Text
