import Stepper.Text.CaseTable
import Stepper.Text.Digit

/-!
Upper and lower case of whole texts. A letter may become several; a capital sigma becomes the final
small one after a letter and before none.
-/
namespace Stepper.Text

/-- The shift of the run that holds `c`. -/
def runShift? (runs : List (Nat × Nat × Nat × Int)) (c : Nat) : Option Int :=
  (runs.find? fun r => r.1 ≤ c && c ≤ r.2.1 && (c - r.1) % r.2.2.1 == 0).map fun r => r.2.2.2

def mapCase (runs : List (Nat × Nat × Nat × Int)) (sequences : List (Nat × List Nat))
    (c : Nat) : Text :=
  match sequences.find? fun s => s.1 == c with
  | some s => s.2
  | none =>
    match runShift? runs c with
    | some d => [((c : Int) + d).toNat]
    | none => [c]

def upperPoint (c : Nat) : Text :=
  if c < 0x80 then [if 0x61 ≤ c && c ≤ 0x7a then c - 32 else c]
  else mapCase CaseTable.upperRuns CaseTable.upperSequences c

def lowerPoint (c : Nat) : Text :=
  if c < 0x80 then [if 0x41 ≤ c && c ≤ 0x5a then c + 32 else c]
  else mapCase CaseTable.lowerRuns CaseTable.lowerSequences c

def upper (t : Text) : Text := t.flatMap upperPoint

def isCased (c : Nat) : Bool := inRanges CaseTable.casedRanges c
def isCaseIgnorable (c : Nat) : Bool := inRanges CaseTable.ignorableRanges c

/-- Whether the nearest code point that is not case-ignorable is a cased letter. -/
def nextIsCased (t : Text) : Bool :=
  match t.dropWhile isCaseIgnorable with
  | [] => false
  | c :: _ => isCased c

/-- `before` holds what was read, nearest first. -/
def lowerFrom (before : Text) : Text → Text
  | [] => []
  | c :: rest =>
    let small :=
      if c == 0x3a3 then
        [if nextIsCased before && !nextIsCased rest then 0x3c2 else 0x3c3]
      else lowerPoint c
    small ++ lowerFrom (c :: before) rest

def lower (t : Text) : Text := lowerFrom [] t

end Stepper.Text
