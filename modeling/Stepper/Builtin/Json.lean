import Stepper.Builtin.Basic
import Stepper.Json.Reader
import Stepper.Text.Quoted

/-!
Values as JSON and back. Functions and undefined have no text of their own: they are left out of
objects and written as null in lists. An object that is open already cannot be written.
-/
namespace Stepper.Builtin

open Machine Machine.Action

/-- What `toJSON` makes of an object. -/
def jsonForm (v : Value) : Action Value := do
  match v with
  | .object r =>
    if (← object r).isCallable then return v
    let f ← get v "toJSON"
    if ← isCallable f then call f v [] else return v
  | v => return v

/-- Items between brackets, on lines of their own if levels are indented. -/
def wrapped (opening closing indent unit_ : Text) (items : List Text) : Text :=
  if items.isEmpty then opening ++ closing
  else if unit_.isEmpty then opening ++ Text.join "," items ++ closing
  else
    let inner := indent ++ unit_
    opening ++ ("\n" : Text) ++ inner ++
      Text.join ((",\n" : Text) ++ inner) items ++ ("\n" : Text) ++
      indent ++ closing

/-- What writes a nested value, under its indent. -/
abbrev NestedWriter := Text → Value → Action (Option Text)

def writeElements (nested : NestedWriter) (indent unit_ : Text) (r : Ref) : Action Text := do
  let items ← repeating (0, ([] : List Text)) fun s => do
    match (← object r).elements[s.1]? with
    | none => return .inr s.2.reverse
    | some v =>
      let t ← nested (indent ++ unit_) v
      return .inl (s.1 + 1, t.getD "null" :: s.2)
  return wrapped "[" "]" indent unit_ items

/-- The keys of the fields that are written: none of a map or a set. -/
def fieldKeys (r : Ref) : Action (List Text) := do
  match (← object r).content with
  | .map _ | .set _ => return []
  | _ => enumerableKeys (.object r)

def writeFields (nested : NestedWriter) (indent unit_ : Text) (r : Ref) : Action Text := do
  let separator : Text := if unit_.isEmpty then ":" else ": "
  let keys ← fieldKeys r
  let items ← collect (fun k => do
    let t ← nested (indent ++ unit_) (← get (.object r) k)
    return t.map fun t => Text.quote k ++ separator ++ t) keys
  return wrapped "\x7b" "\x7d" indent unit_ (items.filterMap id)

mutual
/-- The text of a value, if it has one, with so many frames left; `stack` holds the objects that are
open. -/
def writeValue (unit_ : Text) (frames : Nat) (indent : Text) (stack : List Ref) (v : Value) :
    Action (Option Text) :=
  match frames with
  | 0 => fault .nestingTooDeep
  | frames + 1 => do
    match ← jsonForm v with
    | .null => return some "null"
    | .undefined => return none
    | .bool b => return some (if b then "true" else "false")
    | .number x => return some (if x.isFinite then Number.text x else "null")
    | .text t => return some (Text.quote t)
    | .object r =>
      let o ← object r
      if o.isCallable then return none
      else if stack.contains r then typeError "Converting circular structure to JSON"
      else if o.isArray then return some (← writeArray unit_ frames indent (r :: stack) r)
      else return some (← writeRecord unit_ frames indent (r :: stack) r)

/-- An array takes a frame, and its elements take another. -/
def writeArray (unit_ : Text) (frames : Nat) (indent : Text) (stack : List Ref) (r : Ref) :
    Action Text :=
  match frames with
  | 0 | 1 => fault .nestingTooDeep
  | frames + 2 =>
    writeElements (fun indent v => writeValue unit_ frames indent stack v) indent unit_ r

def writeRecord (unit_ : Text) (frames : Nat) (indent : Text) (stack : List Ref) (r : Ref) :
    Action Text :=
  match frames with
  | 0 => fault .nestingTooDeep
  | frames + 1 =>
    writeFields (fun indent v => writeValue unit_ frames indent stack v) indent unit_ r
end

/-- The indent of a level: up to ten blanks, or up to ten characters of a text. -/
def levelIndent (v : Value) : Text := match v with
  | .number x => List.replicate (min 10 (integerPart x)).toNat 0x20
  | .text t => t.take 10
  | _ => []

def stringify (v indent : Value) : Action (Option Text) := do
  writeValue (levelIndent indent) (← room) [] [] v

def failureText : Json.Failure → Text
  | .complaint c place =>
    Text.ofString c.message ++ (" in JSON at position " : Text) ++ Number.natText 10 place
  | .constant c => ("Unexpected token " : Text) ++ [c] ++ (" in JSON" : Text)
  | .tooManyDigits n =>
    ("Exceeds the limit (4300 digits) for integer string conversion: value has " : Text) ++
      Number.natText 10 n ++
      (" digits; use sys.set_int_max_str_digits() to increase the limit in JSON" : Text)
  | .tooDeep => []

mutual
/-- The value of a tree, with so many frames left: a record takes one, and a list three. -/
def ofTree (frames : Nat) (t : Json.Tree) : Action Value :=
  match t with
  | .null => pure .null
  | .bool b => pure (.bool b)
  | .integer n => do return .number (← ofExcept (Number.floatOfInt n))
  | .number x => pure (.number x)
  | .text t => pure (.text t)
  | .list ts =>
    if frames < 3 then fault .nestingTooDeep else do newArray (← ofTrees (frames - 3) ts)
  | .object fs =>
    if frames < 1 then fault .nestingTooDeep
    else do
      let r ← newObject
      defineFields (frames - 1) r fs
      return .object r

def ofTrees (frames : Nat) (ts : List Json.Tree) : Action (List Value) :=
  match ts with
  | [] => pure []
  | t :: ts => do return (← ofTree frames t) :: (← ofTrees frames ts)

def defineFields (frames : Nat) (r : Ref) (fs : List (Text × Json.Tree)) : Action Unit :=
  match fs with
  | [] => pure ()
  | (k, t) :: fs => do
    define r k (← ofTree frames t)
    defineFields frames r fs
end

def parseJson (t : Text) : Action Value := do
  match Json.read (← room) t with
  | .ok tree => ofTree (← room) tree
  | .error .tooDeep => fault .nestingTooDeep
  | .error f => raise .syntaxError (failureText f)

def callJson (f : JsonFunction) (args : List Value) : Action Value := do
  match f with
  | .stringify => return ((← stringify (arg args 0) (arg args 2)).map .text).getD .undefined
  | .parse => parseJson (← toText (arg args 0))

end Stepper.Builtin
