import Stepper.Builtin.Basic

/-!
The functions of `Object` and what every object inherits; the methods of functions.
-/
namespace Stepper.Builtin

open Machine Machine.Action

/-- The values of an object's keys. -/
def valuesOf (v : Value) : Action (List Value) := do
  collect (fun k => get v k) (← enumerableKeys v)

def entriesOf (v : Value) : Action (List Value) := do
  collect (fun k => do newArray [.text k, ← get v k]) (← enumerableKeys v)

/-- Copies the properties of some values, one after the other. -/
def assignAll (target : Value) (sources : List Value) : Action Unit :=
  each (fun source => do
    if !source.isNullish then
      each (fun k => do set target k (← get source k)) (← enumerableKeys source)) sources

def fromEntries (v : Value) : Action Value := do
  let r ← newObject
  each (fun entry => do
    let k ← toKey (← get entry "0")
    define r k (← get entry "1")) (← iterate v)
  return .object r

/-- Whether a key of digits is an index of a text. -/
def textHasOwn (t : Text) (k : Text) : Action Bool := do
  if k == Text.ofString "length" then return true
  if k.isEmpty || !k.all Text.hasDigitValue then return false
  return (← ofExcept (Number.readInteger 10 k)) < t.length

def objectTag (h : Heap) (v : Value) : String := match v with
  | .undefined => "[object Undefined]"
  | .null => "[object Null]"
  | v => if h.isArray v then "[object Array]" else if h.isCallable v then "[object Function]"
    else "[object Object]"

def callObject (f : ObjectFunction) (this : Value) (args : List Value) : Action Value := do
  let v := arg args 0
  match f with
  | .keys => newArray ((← enumerableKeys v).map .text)
  | .values => newArray (← valuesOf v)
  | .entries => newArray (← entriesOf v)
  | .assign =>
    if v.isNullish then typeError "Cannot convert undefined or null to object"
    assignAll v args.tail
    return v
  | .freeze =>
    match v with
    | .object r => update r fun o => { o with frozen := true }
    | _ => pure ()
    return v
  | .isFrozen =>
    match v with
    | .object r => return .bool (← object r).frozen
    | _ => return .bool true
  | .create =>
    match v with
    | .null => return .object (← alloc {})
    | .object r => return .object (← alloc { proto := some r })
    | _ => typeError "Object prototype may only be an Object or null"
  | .getPrototypeOf =>
    match v with
    | .object r => return ((← object r).proto).elim .null .object
    | .text _ => return .object (← realm).textProto
    | _ => return .null
  | .fromEntries => fromEntries v
  | .hasOwnProperty =>
    let k ← toKey v
    match this with
    | .object r => return .bool (← ofExcept ((← object r).hasOwn k))
    | .text t => return .bool (← textHasOwn t k)
    | _ => return .bool false
  | .toString => return .ofString (objectTag (← heap) this)
  | .valueOf => return this

def constructObject (args : List Value) (newTarget : Value) : Action Value := do
  match arg args 0 with
  | .object r => return .object r
  | _ => return .object (← alloc { proto := some (← prototypeFor newTarget (← realm).objectProto) })

def bindFunction (f this : Value) (args : List Value) : Action Value := do
  callback f
  match f with
  | .object r =>
    let name := ("bound " : Text) ++ (← object r).functionName
    newNative name (.bound r this args)
  | _ => fault .wrongKind

/-- The source of a function of the program, or a text that hides it. -/
def functionText (f : Value) : Action Text := do
  match f with
  | .object r =>
    let o ← object r
    match o.content with
    | .closure c =>
      match c.node with
      | some n => return Text.ofString (← textOf n)
      | none => return nativeText c.name
    | .native name _ => return nativeText name
    | _ => typeError "Function.prototype.toString requires that 'this' be a Function"
  | _ => typeError "Function.prototype.toString requires that 'this' be a Function"

def callFunction (f : FunctionMethod) (this : Value) (args : List Value) : Action Value := do
  match f with
  | .call =>
    callback this
    call this (arg args 0) args.tail
  | .apply =>
    let list := arg args 1
    let values ← if list.isNullish then pure [] else iterate list
    callback this
    call this (arg args 0) values
  | .bind => bindFunction this (arg args 0) args.tail
  | .toString => return .text (← functionText this)

end Stepper.Builtin
