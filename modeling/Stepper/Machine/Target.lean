import Stepper.Machine.Function
import Stepper.Machine.Literal

/-!
Targets: what stands left of an assignment, in a declaration or a parameter list. Binding a pattern
takes a value apart; a reference is a name or a property that can be read and set.
-/
namespace Stepper.Machine

open Syntax

/-- A name, or a property of a value. -/
inductive Reference where
  | name (n : String)
  | property (v : Value) (k : Text)

namespace Action

/-- The text of a literal's fragments and escapes. -/
def literalText (n : Node) : Action Text := do
  let source ← source
  let pieces ← n.children.mapM fun (c : Node) => do
    match c.kind with
    | .stringFragment => pure (Text.ofString (c.text source))
    | .escapeSequence => ofExcept (decodeEscape (Text.ofString (c.text source)))
    | _ => pure []
  return joinSurrogates pieces.flatten

def numberText (n : Node) : Action Float := do
  ofExcept (numberLiteral (Text.ofString (← textOf n)))

/-- The key that a node before a colon or a body names. -/
def propertyKey (n : Node) (e : ScopeRef) : Action Text := do
  match n.kind with
  | .string => literalText n
  | .number => return Number.text (← numberText n)
  | .computedPropertyName => toKey (← eval (← firstChild n) e)
  | _ => return Text.ofString (← textOf n)

/-- The object of a member access; `super` stands for `this`. -/
def memberObject (n : Node) (e : ScopeRef) : Action Value := do
  let o ← part (n.child? .object)
  if o.kind == .superWord then this e else evalHead o e

def memberKey (n : Node) (e : ScopeRef) : Action Text := do
  if n.kind == .memberExpression then return Text.ofString (← textOf (← part (n.child? .property)))
  else toKey (← eval (← part (n.child? .index)) e)

def reference (n : Node) (e : ScopeRef) : Action Reference := do
  let n := n.unwrapParens
  match n.kind with
  | .identifier | .shorthandPropertyIdentifierPattern => return .name (← textOf n)
  | .memberExpression | .subscriptExpression =>
    let v ← memberObject n e
    return .property v (← memberKey n e)
  | _ => raise .syntaxError "Invalid left-hand side in assignment"

def readReference (r : Reference) (e : ScopeRef) : Action Value := match r with
  | .name n => lookup e n
  | .property v k => Action.get v k

def writeReference (r : Reference) (e : ScopeRef) (v : Value) : Action Unit := match r with
  | .name n => assign e n v
  | .property o k => Action.set o k v

def bindName (name : String) (v : Value) (e : ScopeRef) (mode : BindMode) : Action Unit :=
  match mode with
  | .assign | .var => assign e name v
  | .declare kind => declare e name kind (some v)

/-- The name a default takes from its target. -/
def nameHint (n : Node) : Action Text := do
  match n.kind with
  | .identifier | .shorthandPropertyIdentifierPattern => return Text.ofString (← textOf n)
  | _ => return []

/-- Binds the parts of an array pattern to items: a comma goes on to the next item. -/
def bindItems (items : List Value) (e : ScopeRef) (mode : BindMode) :
    List Node → Nat → Action Unit
  | [], _ => pure ()
  | c :: cs, i => do
    if c.isToken "[" || c.isToken "]" || c.kind.isComment then bindItems items e mode cs i
    else if c.isToken "," then bindItems items e mode cs (i + 1)
    else if c.kind == .restPattern then
      bindTarget (← firstChild c) (← newArray (items.drop i)) e mode
      bindItems items e mode cs i
    else
      bindTarget c ((items[i]?).getD .undefined) e mode
      bindItems items e mode cs i

def bindArray (n : Node) (v : Value) (e : ScopeRef) (mode : BindMode) : Action Unit := do
  if v.isNullish then typeError ((← plainText v) ++ (" is not iterable" : Text))
  bindItems (← iterate v) e mode n.children 0

/-- Binds the parts of an object pattern; `used` holds the keys that a rest leaves out. -/
def bindFields (v : Value) (e : ScopeRef) (mode : BindMode) : List Node → List Text → Action Unit
  | [], _ => pure ()
  | c :: cs, used => do
    match c.kind with
    | .pairPattern =>
      let k ← propertyKey (← part (c.child? .key)) e
      bindTarget (← part (c.child? .value)) (← get v k) e mode
      bindFields v e mode cs (k :: used)
    | .shorthandPropertyIdentifierPattern =>
      let k := Text.ofString (← textOf c)
      bindTarget c (← get v k) e mode
      bindFields v e mode cs (k :: used)
    | .objectAssignmentPattern =>
      let k := Text.ofString (← textOf (← part (c.child? .left)))
      bindTarget c (← get v k) e mode
      bindFields v e mode cs (k :: used)
    | .restPattern =>
      let rest ← newObject
      each (fun k => do define rest k (← get v k))
        ((← enumerableKeys v).filter fun k => !used.contains k)
      bindTarget (← firstChild c) (.object rest) e mode
      bindFields v e mode cs used
    | _ => bindFields v e mode cs used

def bindObject (n : Node) (v : Value) (e : ScopeRef) (mode : BindMode) : Action Unit := do
  if v.isNullish then
    let t ← plainText v
    typeError (("Cannot destructure '" : Text) ++ t ++ ("' as it is " : Text) ++ t ++ ("." : Text))
  bindFields v e mode n.namedChildren []

def invalidTarget (n : Node) : Action Unit :=
  raise .syntaxError (Text.ofString ("Invalid destructuring target: " ++ n.kind.name))

/-- Binds the names of a target to the parts of a value. -/
def bindPattern (n : Node) (v : Value) (e : ScopeRef) (mode : BindMode) : Action Unit := do
  match n.kind with
  | .identifier | .shorthandPropertyIdentifierPattern => bindName (← textOf n) v e mode
  | .assignmentPattern | .objectAssignmentPattern =>
    let left ← part (n.child? .left)
    let v ← if v.isUndefined then
        evalNamed (← part (n.child? .right)) e (← nameHint left)
      else pure v
    bindTarget left v e mode
  | .arrayPattern => bindArray n v e mode
  | .objectPattern => bindObject n v e mode
  | .parenthesizedExpression => bindTarget (← firstChild n) v e mode
  | .memberExpression | .subscriptExpression =>
    if mode = .assign then writeReference (← reference n e) e v else invalidTarget n
  | _ => invalidTarget n

end Action
end Stepper.Machine
