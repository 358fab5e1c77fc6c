import Stepper.Builtin.Array
import Stepper.Builtin.Collection
import Stepper.Builtin.Date
import Stepper.Builtin.Json
import Stepper.Builtin.Number
import Stepper.Builtin.Object
import Stepper.Builtin.Text
import Stepper.Machine.Statement

/-!
Calling and constructing: the functions of the program and those that were there before it. Hooks
and the console tell the host.
-/
namespace Stepper.Builtin

open Machine Machine.Action

def constructError (kind : ErrorKind) (args : List Value) (newTarget : Value) : Action Value := do
  match (← realm).errors.find? fun p => p.1 == kind with
  | none => fault .wrongKind
  | some (_, constructor) =>
    match (← object constructor).properties.get? (Text.ofString "prototype") with
    | some (.value (.object fallback)) =>
      let proto ← prototypeFor newTarget fallback
      let message := arg args 0
      let t ← if message.isUndefined then pure [] else toText message
      let own : OrderedMap Text Slot :=
        if message.isUndefined then [] else [(Text.ofString "message", .value (.text t))]
      let stack := Text.ofString kind.name ++ (": " : Text) ++ t
      return .object (← alloc
        { proto := some proto, isError := true,
          properties := own ++ [(Text.ofString "stack", .value (.text stack))] })
    | _ => fault .wrongKind

def errorText (this : Value) : Action Text := do
  if this.isPrimitive then typeError "Error.prototype.toString called on non-object"
  let name ← get this "name"
  let message ← get this "message"
  let name ← if name.isUndefined then pure (Text.ofString "Error") else toText name
  let message ← if message.isUndefined then pure [] else toText message
  return if message.isEmpty then name
    else if name.isEmpty then message
    else name ++ (": " : Text) ++ message

/-- The integer that a hook is given. -/
def hookInteger (v : Value) : Action Int := do
  let x ← ofExcept ((← heap).numberOf (← room) v)
  match Binary64.truncate? x with
  | some n => return n
  | none => fault .notAnInteger

def callHook (h : Instrument.Hook) (args : List Value) : Action Value := do
  let v := arg args 0
  match h with
  | .step =>
    let id ← hookInteger v
    let line ← hookInteger (arg args 1)
    tell fun _ => .step id line
    return .undefined
  | .track =>
    let name ← toText v
    let room ← room
    tell fun heap => .track heap room name (arg args 1)
    return .undefined
  | .enter =>
    let values ← match arg args 1 with
      | .object r => do pure (← object r).elements.toList
      | _ => pure []
    let name ← toText v
    let room ← room
    tell fun heap => .enter heap room name values
    return .undefined
  | .exit =>
    let room ← room
    tell fun heap => .exit heap room v
    return v
  | .memory =>
    tell fun _ => .memory
    return .undefined

/-- How a value is shown on the console: objects as JSON, functions by their own text. -/
def consoleText (v : Value) : Action Text := do
  match v with
  | .object r =>
    if (← object r).isCallable then toText v
    else return (← stringify v .undefined).getD "undefined"
  | v => plainText v

def callConsole (k : ConsoleKind) (args : List Value) : Action Value := do
  if ← wantsText then
    let pieces ← collect consoleText args
    tell fun _ => .console k (.text (Text.join " " pieces))
  else
    let room ← room
    tell fun heap => .console k (.values heap room args)
  return .undefined

/-- What a constructor does when it is called as a function. -/
def callConstructor (c : Constructor) (args : List Value) : Action Value := do
  let v := arg args 0
  match c with
  | .object => if v.isNullish then return .object (← newObject) else return v
  | .array => newArray (← arrayElements args)
  | .string => if args.isEmpty then return .text [] else return .text (← toText v)
  | .number => if args.isEmpty then return natValue 0 else return .number (← toNumber v)
  | .boolean => return .bool v.truth
  | .date => dateText presentMoment
  | .error kind => constructError kind args .undefined
  | .function | .map | .set =>
    typeError (Text.ofString ("Constructor " ++ c.name ++ " requires 'new'"))

def callNative (f : Native) (this : Value) (args : List Value) : Action Value :=
  match f with
  | .global f => callGlobal f args
  | .object f => callObject f this args
  | .function f => callFunction f this args
  | .array f => callArray f this args
  | .text f => callText f this args
  | .number f => callNumber f this args
  | .boolean f => callBoolean f this
  | .math f => callMath f args
  | .json f => callJson f args
  | .map f => callMap f this args
  | .set f => callSet f this args
  | .date f => callDate f this
  | .errorToString => do return .text (← errorText this)
  | .constructor c => callConstructor c args
  | .hook h => callHook h args
  | .console k => callConsole k args
  | .bound target this first => call (.object target) this (first ++ args)

def constructNative (name : Text) (f : Native) (args : List Value) (newTarget : Value) :
    Action Value :=
  match f with
  | .constructor .object => constructObject args newTarget
  | .constructor .array => constructArray args newTarget
  | .constructor .map => constructMap args newTarget
  | .constructor .set => constructSet args newTarget
  | .constructor .date => constructDate args newTarget
  | .constructor (.error kind) => constructError kind args newTarget
  | .bound target _ first => construct (.object target) (first ++ args) (.object target)
  | _ => typeError (name ++ (" is not a constructor" : Text))

def notFunction (f : Value) : Action Value := do
  typeError ((← describe f) ++ (" is not a function" : Text))

/-- Calls an object that holds a function. -/
def callContent (r : Ref) (content : Content) (this : Value) (args : List Value) : Action Value :=
  match content with
  | .native _ n => callNative n this args
  | .closure c => callClosure r c this args
  | _ => notFunction (.object r)

/-- Calls a value. -/
def callValue (f this : Value) (args : List Value) : Action Value := do
  match f with
  | .object r => callContent r (← object r).content this args
  | _ => notFunction f

/-- Makes an object by a value. -/
def constructValue (f : Value) (args : List Value) (newTarget : Value) : Action Value := do
  match f with
  | .object r =>
    match (← object r).content with
    | .native name n => constructNative name n args newTarget
    | .closure c => constructClosure r c args newTarget
    | _ => notConstructor f
  | _ => notConstructor f

end Stepper.Builtin
