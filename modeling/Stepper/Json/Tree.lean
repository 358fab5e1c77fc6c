import Stepper.Text.Basic

/-!
JSON data: finite trees of atoms, lists, and objects that keep the order of their fields. Integers
have any size and are kept apart from other numbers, which may also be NaN or infinite.
-/
namespace Stepper.Json

inductive Tree where
  | null
  | bool (b : Bool)
  | integer (n : Int)
  | number (x : Float)
  | text (t : Text)
  | list (vs : List Tree)
  | object (fields : List (Text × Tree))
  deriving Inhabited

namespace Tree

def ofString (s : String) : Tree := .text (Text.ofString s)
def ofNat (n : Nat) : Tree := .integer n
def ofTexts (ss : List String) : Tree := .list (ss.map ofString)

/-- What may be missing is null where it is. -/
def ofOption {α : Type} (f : α → Tree) : Option α → Tree
  | none => .null
  | some a => f a

def record (fields : List (String × Tree)) : Tree :=
  .object (fields.map fun p => (Text.ofString p.1, p.2))

end Tree
end Stepper.Json
