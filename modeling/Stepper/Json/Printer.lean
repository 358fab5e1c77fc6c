import Stepper.Json.Tree
import Stepper.Number.Format
import Stepper.Text.Quoted

/-!
Writing JSON: on one line with all texts in ASCII, or spread over lines with one member a line and
texts as they are.
-/
namespace Stepper.Json

/-- Numbers without a value in JSON are written as words. -/
def numberText (x : Float) : Text :=
  if x.isNaN then "NaN"
  else if x.isFinite then Number.plain x
  else if x < 0 then "-Infinity"
  else "Infinity"

namespace Tree

mutual
/-- A tree on one line. -/
def line (v : Tree) : Text :=
  match v with
  | .null => "null"
  | .bool b => if b then "true" else "false"
  | .integer n => Number.intText 10 n
  | .number x => numberText x
  | .text t => Text.quoteAscii t
  | .list vs => ("[" : Text) ++ Text.join ", " (lines vs) ++ ("]" : Text)
  | .object fs => ("\x7b" : Text) ++ Text.join ", " (fieldLines fs) ++ ("\x7d" : Text)
termination_by structural v

def lines (vs : List Tree) : List Text :=
  match vs with
  | [] => []
  | v :: vs => v.line :: lines vs
termination_by structural vs

def fieldLines (fs : List (Text × Tree)) : List Text :=
  match fs with
  | [] => []
  | (k, v) :: fs => (Text.quoteAscii k ++ (": " : Text) ++ v.line) :: fieldLines fs
termination_by structural fs
end

/-- Members one a line between brackets, each line two blanks further in than `indent`. -/
def block (indent : Nat) (first last : Text) (members : List Text) : Text :=
  if members.isEmpty then first ++ last
  else
    let inner := 0x0a :: List.replicate (indent + 2) 0x20
    first ++ inner ++ Text.join (0x2c :: inner) members ++
      0x0a :: List.replicate indent 0x20 ++ last

mutual
/-- A tree over several lines. -/
def spread (indent : Nat) (v : Tree) : Text :=
  match v with
  | .null => "null"
  | .bool b => if b then "true" else "false"
  | .integer n => Number.intText 10 n
  | .number x => numberText x
  | .text t => Text.quote t
  | .list vs => block indent "[" "]" (spreadAll (indent + 2) vs)
  | .object fs => block indent "\x7b" "\x7d" (spreadFields (indent + 2) fs)
termination_by structural v

def spreadAll (indent : Nat) (vs : List Tree) : List Text :=
  match vs with
  | [] => []
  | v :: vs => v.spread indent :: spreadAll indent vs
termination_by structural vs

def spreadFields (indent : Nat) (fs : List (Text × Tree)) : List Text :=
  match fs with
  | [] => []
  | (k, v) :: fs => (Text.quote k ++ (": " : Text) ++ v.spread indent) :: spreadFields indent fs
termination_by structural fs
end

end Tree
end Stepper.Json
