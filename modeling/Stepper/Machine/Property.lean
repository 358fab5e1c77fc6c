import Stepper.Machine.Action
import Stepper.Syntax.Names

/-!
Properties of values, and the conversions that may call functions of the program: an object becomes
a text or a number by its own methods.
-/
namespace Stepper.Machine

open Syntax

namespace Action

def newObject : Action Ref := do
  alloc { proto := some (← realm).objectProto }

def newArray (elements : List Value) : Action Value := do
  return .object
    (← alloc { proto := some (← realm).arrayProto, content := .array elements.toArray })

def newNative (name : Text) (f : Native) : Action Value := do
  return .object (← alloc { proto := some (← realm).functionProto, content := .native name f })

/-- Sets a property of an object itself. -/
def define (r : Ref) (k : Text) (v : Value) : Action Unit :=
  update r fun o => { o with properties := o.properties.set k (.value v) }

/-- The object that an error of the machine becomes. -/
def errorObject (kind : ErrorKind) (message : Text) : Action Value := do
  match (← realm).errors.find? fun p => p.1 == kind with
  | none => fault .wrongKind
  | some (_, constructor) =>
    match (← object constructor).properties.get? (Text.ofString "prototype") with
    | some (.value (.object proto)) =>
      let full := Text.ofString kind.name ++ (": " : Text) ++ message
      return .object (← alloc
        { proto := some proto, isError := true,
          properties := [("message", .value (.text message)), ("stack", .value (.text full))] })
    | _ => fault .wrongKind

def isCallable (v : Value) : Action Bool := do return (← heap).isCallable v

/-- The built-in text of a value. -/
def plainText (v : Value) : Action Text := do ofExcept ((← heap).textOf (← room) v)

/-- The integer of a value, by the built-in rules. -/
def plainInteger (v : Value) : Action Int := do ofExcept ((← heap).integerOf (← room) v)

/-- How a value is named in messages. -/
def describe (v : Value) : Action Text := do
  match v with
  | .text t => return ("\"" : Text) ++ t ++ ("\"" : Text)
  | .object r => if (← object r).isCallable then plainText v else return "object"
  | v => plainText v

/-- The value of a slot, for a receiver. -/
def slotValue (s : Option Slot) (receiver : Value) : Action Value := do
  match s with
  | none => return .undefined
  | some (.value v) => return v
  | some (.accessor none _) => return .undefined
  | some (.accessor (some g) _) => call (.object g) receiver []

/-- A property of `holder`, read for a receiver. -/
def getFrom (holder : Ref) (k : Text) (receiver : Value) : Action Value := do
  slotValue ((← heap).lookup k holder) receiver

/-- The number of parameters before the first one with a default and before a rest. -/
def functionLength (o : Object) : Nat := match o.content with
  | .closure c => match c.node with
    | some n => (n.parameterNodes.takeWhile fun p =>
        p.kind != .assignmentPattern && p.kind != .restPattern).length
    | none => 0
  | _ => 0

/-- The property of an object. -/
def getOwnOrInherited (r : Ref) (k : Text) : Action Value := do
  let o ← object r
  match o.content with
  | .array es =>
    if k == Text.ofString "length" then return .number (Binary64.ofNat es.size)
    match ← ofExcept (arrayIndex? k) with
    | some i => return es.getD i .undefined
    | none => getFrom r k (.object r)
  | .closure _ | .native _ _ =>
    if !o.properties.has k && k == Text.ofString "name" then return .text o.functionName
    else if !o.properties.has k && k == Text.ofString "length" then
      return .number (Binary64.ofNat (functionLength o))
    else getFrom r k (.object r)
  | _ => getFrom r k (.object r)

def get (v : Value) (k : Text) : Action Value := do
  match v with
  | .undefined | .null =>
    typeError (("Cannot read properties of " : Text) ++ (← plainText v) ++
      (" (reading '" : Text) ++ k ++ ("')" : Text))
  | .text t =>
    if k == Text.ofString "length" then return .number (Binary64.ofNat t.length)
    match ← ofExcept (arrayIndex? k) with
    | some i => return (t[i]?).elim .undefined fun c => .text [c]
    | none => getFrom (← realm).textProto k v
  | .bool _ => getFrom (← realm).booleanProto k v
  | .number _ => getFrom (← realm).numberProto k v
  | .object r => getOwnOrInherited r k

/-- The greatest length of a sequence. -/
def maxLength : Nat := 50000000

def checkLength (n : Nat) : Action Unit := if maxLength < n then fault .tooLarge else pure ()

/-- Elements cut or filled up with undefined to a length. -/
def resized (es : Array Value) (n : Nat) : Array Value :=
  if n ≤ es.size then es.extract 0 n else es ++ Array.replicate (n - es.size) .undefined

/-- Elements with the one at an index replaced, after filling up as far as needed. -/
def withElement (es : Array Value) (i : Nat) (v : Value) : Array Value :=
  if i < es.size then es.setIfInBounds i v
  else (es ++ Array.replicate (i - es.size) Value.undefined).push v

def setElements (r : Ref) (f : Array Value → Array Value) : Action Unit :=
  update r fun o => match o with
    | ⟨proto, isError, frozen, properties, .array es⟩ =>
      ⟨proto, isError, frozen, properties, .array (f es)⟩
    | o => o

/-- Sets a property by its setter, or on the object itself. -/
def setNamed (r : Ref) (k : Text) (v : Value) : Action Unit := do
  match (← heap).lookup k r with
  | some (.accessor _ none) => return ()
  | some (.accessor _ (some s)) => let _ ← call (.object s) (.object r) [v]
  | _ => define r k v

/-- Sets a property. Frozen objects and values that are no objects take none. -/
def set (target : Value) (k : Text) (v : Value) : Action Unit := do
  match target with
  | .undefined | .null =>
    typeError (("Cannot set properties of " : Text) ++ (← plainText target) ++
      (" (setting '" : Text) ++ k ++ ("')" : Text))
  | .object r =>
    let o ← object r
    if o.frozen then return ()
    if !o.isArray then setNamed r k v
    else if k == Text.ofString "length" then
      let n := (← plainInteger v).toNat
      checkLength n
      setElements r fun es => resized es n
    else match ← ofExcept (arrayIndex? k) with
      | some i =>
        checkLength i
        setElements r fun es => withElement es i v
      | none => setNamed r k v
  | _ => return ()

/-- Removes a property of an object itself; an element becomes undefined. -/
def delete (v : Value) (k : Text) : Action Unit := do
  match v with
  | .object r =>
    let o ← object r
    if o.frozen then return ()
    match ← (if o.isArray then ofExcept (arrayIndex? k) else pure none) with
    | some i => setElements r fun es => es.setIfInBounds i .undefined
    | none => update r fun o => { o with properties := o.properties.erase k }
  | _ => return ()

/-- What a conversion is for. -/
inductive Hint where
  | any | number | text
  deriving DecidableEq, Repr

/-- Calls the first of two methods that is one and gives no object. -/
def primitiveBy (v : Value) : List Text → Action Value
  | [] => typeError "Cannot convert object to primitive value"
  | name :: names => do
    let method ← get v name
    if ← isCallable method then
      let result ← call method v []
      if result.isPrimitive then return result else primitiveBy v names
    else primitiveBy v names

/-- A value that is no object stays; a date is its time unless a text is wanted. -/
def toPrimitive (v : Value) (hint : Hint) : Action Value := do
  match v with
  | .object r =>
    match (← object r).content, hint with
    | .date time, .any | .date time, .number => return .number time
    | _, .text => primitiveBy v ["toString", "valueOf"]
    | _, _ => primitiveBy v ["valueOf", "toString"]
  | v => return v

def toText (v : Value) : Action Text := do plainText (← toPrimitive v .text)

def toNumber (v : Value) : Action Float := do
  let p ← toPrimitive v .number
  ofExcept ((← heap).numberOf (← room) p)

/-- The integer part of a value's number. -/
def toInteger (v : Value) : Action Int := do return integerPart (← toNumber v)

def toKey (v : Value) : Action Text := do
  match v with
  | .text t => return t
  | .number x => return Number.text x
  | v => toText v

/-- The keys that loops and copies see. -/
def enumerableKeys (v : Value) : Action (List Text) := do
  match v with
  | .text t => return (List.range t.length).map indexKey
  | .object r =>
    let o ← object r
    let keys ← ofExcept o.ownKeys
    return keys.filter fun k => match o.properties.get? k with
      | some (.accessor _ _) => false
      | _ => true
  | _ => return []

/-- The members of a value that has some. -/
def iterate (v : Value) : Action (List Value) := do
  match v with
  | .text t => return t.map fun c => .text [c]
  | .object r =>
    match (← object r).content with
    | .array es => return es.toList
    | .set entries => return entries.values
    | .map entries => collect (fun p => newArray [p.1, p.2]) entries.values
    | _ => typeError ((← describe v) ++ (" is not iterable" : Text))
  | _ => typeError ((← describe v) ++ (" is not iterable" : Text))

/-- The prototype that a constructor gives its objects. -/
def prototypeFor (newTarget : Value) (fallback : Ref) : Action Ref := do
  match newTarget with
  | .object _ => return ((← get newTarget "prototype").ref?).getD fallback
  | _ => return fallback

def instanceOf (v constructor : Value) : Action Bool := do
  if !(← isCallable constructor) then typeError "Right-hand side of 'instanceof' is not callable"
  match v with
  | .object r =>
    match ← get constructor "prototype" with
    | .object p => return (← heap).inherits p r
    | _ => return false
  | _ => return false

/-- The name and message of what a program threw. -/
def thrownDetails (v : Value) : Action (Text × Text) := do
  match v with
  | .object _ =>
    let name ← get v "name"
    let message ← get v "message"
    let name ← if name.isNullish then pure (Text.ofString "Error") else toText name
    let message ← if message.isNullish then pure [] else toText message
    return (name, message)
  | v => return ("Error", ← toText v)

end Action
end Stepper.Machine
