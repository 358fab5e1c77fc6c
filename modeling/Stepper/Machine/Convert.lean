import Stepper.Machine.Object
import Stepper.Number.Format
import Stepper.Number.Word

/-!
Conversions of values by the built-in rules alone: no function of the program is called. Nested
arrays are followed with the frames that are left.
-/
namespace Stepper.Machine

open Binary64

def one : Float := ofNat 1
def zero : Float := ofNat 0

def boolNumber (b : Bool) : Float := if b then one else zero

def nativeText (name : Text) : Text :=
  ("function " : Text) ++ name ++ ("() \x7b [native code] \x7d" : Text)

namespace Heap

/-- A plain property, or the fallback where there is none. -/
def plainOr (h : Heap) (r : Ref) (k : Text) (fallback : Value) : Value :=
  match h.lookup k r with
  | some (.value v) => v
  | _ => fallback

mutual
/-- The text of a value. -/
def textOf (h : Heap) : Nat → Value → Except Fault Text
  | _, .undefined => .ok "undefined"
  | _, .null => .ok "null"
  | _, .bool b => .ok (if b then "true" else "false")
  | _, .number x => .ok (Number.text x)
  | _, .text t => .ok t
  | 0, .object _ => .error .nestingTooDeep
  | frames + 1, .object r => do
    let o := h.get r
    match o.content with
    | .array es => return Text.join "," (← elementTexts h frames es.toList)
    | .closure _ | .native _ _ =>
      let name := if o.functionName.isEmpty then Text.ofString "anonymous" else o.functionName
      return nativeText name
    | _ =>
      if h.isError r then
        let name ← textOf h frames (h.plainOr r "name" (.ofString "Error"))
        let message ← textOf h frames (h.plainOr r "message" (.text []))
        return if message.isEmpty then name else name ++ (": " : Text) ++ message
      else return "[object Object]"

/-- To go through elements takes a frame more. -/
def elementTexts (h : Heap) : Nat → List Value → Except Fault (List Text)
  | 0, _ => .error .nestingTooDeep
  | frames + 1, vs => vs.mapM fun v => if v.isNullish then .ok [] else textOf h frames v
end

/-- The number of a value. -/
def numberOf (h : Heap) (frames : Nat) : Value → Except Fault Float
  | .undefined => .ok nan
  | .null => .ok zero
  | .bool b => .ok (boolNumber b)
  | .number x => .ok x
  | .text t => Number.ofText t
  | .object r =>
    match (h.get r).content with
    | .date time => .ok time
    | .array _ => do Number.ofText (← h.textOf frames (.object r))
    | _ => .ok nan

/-- The integer part of a value's number; NaN gives zero and an infinity `2^53`. -/
def integerOf (h : Heap) (frames : Nat) (v : Value) : Except Fault Int := do
  let x ← h.numberOf frames v
  return if x.isNaN then 0
    else (truncate? x).getD (if x > 0 then Nat.pow 2 53 else -Nat.pow 2 53)

end Heap

/-- Whether a value counts as true. -/
def Value.truth : Value → Bool
  | .undefined | .null => false
  | .bool b => b
  | .number x => !(x == 0 || x.isNaN)
  | .text t => !t.isEmpty
  | .object _ => true

/-- The integer part of a number; NaN gives zero and an infinity `2^53`. -/
def integerPart (x : Float) : Int :=
  if x.isNaN then 0 else (truncate? x).getD (if x > 0 then Nat.pow 2 53 else -Nat.pow 2 53)

/-- The equality of `===`. -/
def Value.same : Value → Value → Bool
  | .undefined, .undefined => true
  | .null, .null => true
  | .bool a, .bool b => a == b
  | .number x, .number y => x == y
  | .text s, .text t => s == t
  | .object a, .object b => a == b
  | _, _ => false

/-- As `===`, but NaN equals NaN. -/
def Value.sameOrNaN (a b : Value) : Bool :=
  match a, b with
  | .number x, .number y => (x.isNaN && y.isNaN) || x == y
  | a, b => a.same b

end Stepper.Machine
