import Stepper.Json.Tree
import Stepper.Machine.Convert
import Stepper.Text.Shown

/-!
Captured values: what a value is at one moment, as JSON data. An object on the way from the root
to itself is shown as circular; objects that are only shared are shown in full each time.
-/
namespace Stepper.Machine

open Binary64 Json

/-! The key of a dictionary entry is exported as a label. -/

/-- The label of a value inside another: texts are shown in quotes. -/
def innerLabel : Tree → Text
  | .null => "None"
  | .bool b => if b then "True" else "False"
  | .integer n => Number.intText 10 n
  | .number x => Number.plain x
  | .text t => Text.shown t
  | .list vs => ("[" : Text) ++ Text.join ", " (innerLabels vs) ++ ("]" : Text)
  | .object fs => ("\x7b" : Text) ++ Text.join ", " (fieldLabels fs) ++ ("\x7d" : Text)
where
  innerLabels : List Tree → List Text
    | [] => []
    | v :: vs => innerLabel v :: innerLabels vs
  fieldLabels : List (Text × Tree) → List Text
    | [] => []
    | (k, v) :: fs => (Text.shown k ++ (": " : Text) ++ innerLabel v) :: fieldLabels fs

def label : Tree → Text
  | .text t => t
  | v => innerLabel v

namespace Heap

/-- A number: an integer as such. -/
def exportNumber (x : Float) : Tree :=
  match toInt? x with
  | some n => .integer n
  | none => .number x

def functionLabel (o : Object) : Text :=
  let name := if o.functionName.isEmpty then Text.ofString "anonymous" else o.functionName
  ("[Function: " : Text) ++ name ++ ("]" : Text)

mutual
/-- Exports below the objects of `path`, with so many frames left. -/
def exportBelow (h : Heap) : Nat → List Ref → Value → Except Fault Tree
  | _, _, .undefined => .ok .null
  | _, _, .null => .ok .null
  | _, _, .bool b => .ok (.bool b)
  | _, _, .number x => .ok (exportNumber x)
  | _, _, .text t => .ok (.text t)
  | 0, _, .object _ => .error .nestingTooDeep
  | frames + 1, path, .object r => do
    let o := h.get r
    if o.isCallable then return .text (functionLabel o)
    if path.contains r then return .text "[Circular]"
    match o.content with
    | .array es => return .list (← exportEach h frames (r :: path) es.toList)
    | .set entries => return .list (← exportEach h frames (r :: path) entries.values)
    | .map entries =>
      return .object (OrderedMap.ofList (← exportEntries h frames (r :: path) entries.values))
    | _ =>
      let fields ← (← o.ownKeys).filterMapM fun k =>
        match o.properties.get? k with
        | some (.value v) => do return some (k, ← exportBelow h frames (r :: path) v)
        | _ => return none
      return .object fields

/-- To go through elements takes a frame more. -/
def exportEach (h : Heap) : Nat → List Ref → List Value → Except Fault (List Tree)
  | 0, _, _ => .error .nestingTooDeep
  | frames + 1, path, vs => vs.mapM (exportBelow h frames path)

def exportEntries (h : Heap) : Nat → List Ref → List (Value × Value) →
    Except Fault (List (Text × Tree))
  | 0, _, _ => .error .nestingTooDeep
  | frames + 1, path, ps => ps.mapM fun p => do
    return (label (← exportBelow h frames path p.1), ← exportBelow h frames path p.2)
end

/-- The exported form of a value. -/
def export_ (h : Heap) (frames : Nat) (v : Value) : Except Fault Tree := h.exportBelow frames [] v

end Heap

/-- A captured value with its tag. -/
structure Captured where
  tag : String
  value : Tree

def Heap.capture (h : Heap) (frames : Nat) (v : Value) : Except Fault Captured := do
  return ⟨h.typeTag v, ← h.export_ frames v⟩

end Stepper.Machine
