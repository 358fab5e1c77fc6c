import Stepper.Builtin.Basic
import Stepper.Text.Case
import Stepper.Text.Split

/-!
The functions of texts. Positions count code points.
-/
namespace Stepper.Builtin

open Machine Machine.Action

/-- The text that a method is called on. -/
def thisText (this : Value) : Action Text := do
  match this with
  | .undefined | .null => typeError "String.prototype method called on null or undefined"
  | .text t => return t
  | v => toText v

/-- A position between the ends of a text. -/
def clampedPosition (v : Value) (length default : Nat) : Action Nat := do
  if v.isUndefined then return default
  return min (← toInteger v).toNat length

def fromCharCodes (args : List Value) : Action Text :=
  collect (fun v => do return ((← toInteger v) % 0x10000).toNat) args

/-- What replaces a match: what a function gives, or a template with the match put in. -/
def replacement (replacer : Value) (found : Text) (i : Nat) (t : Text) : Action Text := do
  if ← isCallable replacer then
    toText (← call replacer .undefined [.text found, natValue i, .text t])
  else
    return Text.expandTemplate found (← toText replacer)

def replaceFirst (t : Text) (pattern replacer : Value) : Action Text := do
  let p ← toText pattern
  match t.find? p 0 with
  | none => return t
  | some i =>
    let r ← replacement replacer p i t
    return t.take i ++ r ++ t.drop (i + p.length)

/-- The pieces between and in place of the matches at some positions, joined. -/
def replaceAt (t p : Text) (replacer : Value) : List Nat → Nat → Text → Action Text
  | [], last, done => pure (done ++ t.drop last)
  | i :: is, last, done => do
    let r ← replacement replacer p i t
    replaceAt t p replacer is (i + p.length) (done ++ Text.slice t last i ++ r)

def replaceAll (t : Text) (pattern replacer : Value) : Action Text := do
  let p ← toText pattern
  replaceAt t p replacer (Text.found t p) 0 []

def repeatText (this : Value) (count : Value) : Action Text := do
  let x ← toNumber count
  if x < 0 || x.isInf then
    raise .rangeError (("Invalid count value: " : Text) ++ Number.text x)
  let t ← thisText this
  let n := (integerPart x).toNat
  checkLength (t.length * n)
  return if t.isEmpty then [] else Text.replicate t n

def padText (this : Value) (args : List Value) (atStart : Bool) : Action Text := do
  let t ← thisText this
  let target ← toInteger (arg args 0)
  let filler ← match arg args 1 with
    | .undefined => pure (Text.ofString " ")
    | v => toText v
  if target ≤ t.length || filler.isEmpty then return t
  let needed := target.toNat - t.length
  checkLength needed
  let padding := (Text.replicate filler (needed / filler.length + 1)).take needed
  return if atStart then padding ++ t else t ++ padding

def splitText (t : Text) (separator limit : Value) : Action Value := do
  let parts ← match separator with
    | .undefined => pure [t]
    | v => do pure (Text.splitOn t (← toText v))
  let parts ← match limit with
    | .undefined => pure parts
    | v => do pure (parts.take (← toInteger v).toNat)
  newArray (parts.map .text)

def callText (f : TextFunction) (this : Value) (args : List Value) : Action Value := do
  match f with
  | .fromCharCode => return .text (← fromCharCodes args)
  | .charAt =>
    let t ← thisText this
    let i ← toInteger (arg args 0)
    return .text (if 0 ≤ i then (t[i.toNat]?).toList else [])
  | .charCodeAt =>
    let t ← thisText this
    let i ← toInteger (arg args 0)
    match (if 0 ≤ i then t[i.toNat]? else none) with
    | some c => return natValue c
    | none => return .number Binary64.nan
  | .indexOf =>
    let t ← thisText this
    let start ← toInteger (arg args 1)
    let start := min start.toNat t.length
    match t.find? (← toText (arg args 0)) start with
    | some i => return natValue i
    | none => return intValue (-1)
  | .lastIndexOf =>
    let t ← thisText this
    match t.findLast? (← toText (arg args 0)) with
    | some i => return natValue i
    | none => return intValue (-1)
  | .includes =>
    let p ← toText (arg args 0)
    let t ← thisText this
    return .bool (Text.contains t p)
  | .startsWith =>
    let t ← thisText this
    let start ← position (arg args 1) t.length 0
    return .bool (Text.startsWith (t.drop start) (← toText (arg args 0)))
  | .endsWith =>
    let t ← thisText this
    let stop ← position (arg args 1) t.length t.length
    return .bool (Text.endsWith (t.take stop) (← toText (arg args 0)))
  | .slice =>
    let t ← thisText this
    let start ← position (arg args 0) t.length 0
    let stop ← position (arg args 1) t.length t.length
    return .text (Text.slice t start stop)
  | .substring =>
    let t ← thisText this
    let i ← clampedPosition (arg args 0) t.length 0
    let j ← clampedPosition (arg args 1) t.length t.length
    return .text (Text.slice t (min i j) (max i j))
  | .substr =>
    let t ← thisText this
    let start ← position (arg args 0) t.length 0
    let count ← match arg args 1 with
      | .undefined => pure (t.length - start)
      | v => do pure (← toInteger v).toNat
    return .text (Text.slice t start (start + count))
  | .toUpperCase => return .text (Text.upper (← thisText this))
  | .toLowerCase => return .text (Text.lower (← thisText this))
  | .trim => return .text (Text.stripScript (← thisText this))
  | .trimStart => return .text ((← thisText this).dropWhile Text.isScriptBlank)
  | .trimEnd => return .text (Text.stripEndBy Text.isScriptBlank (← thisText this))
  | .split => splitText (← thisText this) (arg args 0) (arg args 1)
  | .replace => return .text (← replaceFirst (← thisText this) (arg args 0) (arg args 1))
  | .replaceAll => return .text (← replaceAll (← thisText this) (arg args 0) (arg args 1))
  | .repeat_ => return .text (← repeatText this (arg args 0))
  | .padStart => return .text (← padText this args true)
  | .padEnd => return .text (← padText this args false)
  | .concat =>
    let t ← thisText this
    return .text (t ++ (← collect toText args).flatten)
  | .at_ =>
    let t ← thisText this
    let i ← toInteger (arg args 0)
    let i := if i < 0 then i + t.length else i
    match (if 0 ≤ i then t[i.toNat]? else none) with
    | some c => return .text [c]
    | none => return .undefined
  | .localeCompare =>
    let t ← thisText this
    let other ← toText (arg args 0)
    match Text.compare t other with
    | .lt => return intValue (-1)
    | .eq => return natValue 0
    | .gt => return natValue 1
  | .toString | .valueOf => return .text (← thisText this)

end Stepper.Builtin
