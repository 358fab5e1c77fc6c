import Stepper.Machine.Target

/-!
Object literals and classes: both put methods, getters and setters on an object.
-/
namespace Stepper.Machine

open Syntax

namespace Action

/-- Sets half of an accessor; a plain property there is replaced. -/
def defineHalf (r : Ref) (k : Text) (isGetter : Bool) (f : Ref) : Action Unit :=
  update r fun o =>
    let (getter, setter) := match o.properties.get? k with
      | some (.accessor g s) => (g, s)
      | _ => (none, none)
    let slot := if isGetter then Slot.accessor (some f) setter else Slot.accessor getter (some f)
    { o with properties := o.properties.set k slot }

/-- Puts a method, getter or setter on an object. -/
def defineMethod (r : Ref) (k : Text) (f : Value) (n : Node) : Action Unit := do
  if n.hasToken "get" || n.hasToken "set" then
    match f with
    | .object f => defineHalf r k (n.hasToken "get") f
    | _ => fault .wrongKind
  else define r k f

def evalMember (r : Ref) (e : ScopeRef) (n : Node) : Action Unit := do
  match n.kind with
  | .pair =>
    let k ← propertyKey (← part (n.child? .key)) e
    define r k (← evalNamed (← part (n.child? .value)) e k)
  | .shorthandPropertyIdentifier =>
    let name ← textOf n
    define r (Text.ofString name) (← lookup e name)
  | .spreadElement =>
    let source ← eval (← firstChild n) e
    if !source.isNullish then
      each (fun k => do define r k (← get source k)) (← enumerableKeys source)
  | .methodDefinition =>
    let k ← propertyKey (← part (n.child? .name)) e
    defineMethod r k (← makeFunction n e k (some r) true) n
  | _ => pure ()

def evalObject (n : Node) (e : ScopeRef) : Action Value := do
  let r ← newObject
  each (evalMember r e) n.namedChildren
  return .object r

/-- What a class extends: nothing, null, or a function. -/
inductive Heritage where
  | none
  | null
  | parent (r : Ref)

def evalHeritage (n : Node) (e : ScopeRef) : Action Heritage := do
  match n.children.find? fun c => c.kind == .classHeritage with
  | none => return .none
  | some h =>
    match ← eval (← firstChild h) e with
    | .null => return .null
    | v =>
      if !(← isCallable v) then
        typeError (("Class extends value " : Text) ++ (← describe v) ++
          (" is not a constructor or null" : Text))
      match v with
      | .object r => return .parent r
      | _ => fault .wrongKind

def prototypeParent (h : Heritage) : Action (Option Ref) := do
  match h with
  | .none => return some (← realm).objectProto
  | .null => return none
  | .parent r => return (← get (.object r) "prototype").ref?

/-- The method that is written as the constructor. -/
def constructorNode? (source : String) (members : List Node) : Option Node :=
  members.find? fun m =>
    m.kind == .methodDefinition && !m.hasToken "static" &&
      match m.child? .name with
      | some name => name.text source == "constructor"
      | none => false

/-- A static field with its key, or a static block. -/
inductive StaticPart where
  | field (k : Text) (value : Option Node)
  | block (body : Node)

/-- Puts the members of a class in place, one after the other; static parts are kept for the end. -/
def evalMembers (constructor : Ref) (proto : Ref) (written : Option Node) (e : ScopeRef) :
    List Node → List StaticPart → Action (List StaticPart)
  | [], statics => pure statics.reverse
  | m :: ms, statics => do
    match m.kind with
    | .methodDefinition =>
      if (written.map Node.id) == some m.id then evalMembers constructor proto written e ms statics
      else
        let target := if m.hasToken "static" then constructor else proto
        let k ← propertyKey (← part (m.child? .name)) e
        defineMethod target k (← makeFunction m e k (some target) true) m
        evalMembers constructor proto written e ms statics
    | .fieldDefinition =>
      let k ← propertyKey (← part (m.child? .property)) e
      let value := m.child? .value
      if m.hasToken "static" then
        evalMembers constructor proto written e ms (.field k value :: statics)
      else
        update constructor fun o => match o.content with
          | .closure c =>
              { o with content := .closure { c with fields := c.fields ++ [(k, value)] } }
          | _ => o
        evalMembers constructor proto written e ms statics
    | .classStaticBlock =>
      let body ← part (m.child? .body)
      evalMembers constructor proto written e ms (.block body :: statics)
    | _ => evalMembers constructor proto written e ms statics

def runStatic (constructor : Ref) (e : ScopeRef) (s : StaticPart) : Action Unit := do
  match s with
  | .block body => exec body e
  | .field k none => define constructor k .undefined
  | .field k (some n) => define constructor k (← evalNamed n e k)

def evalClass (n : Node) (e : ScopeRef) : Action Value := do
  let source ← source
  let name := ((n.child? .name).map (Node.text source)).getD ""
  let heritage ← evalHeritage n e
  let scope ← childScope e
  if !name.isEmpty then declare scope name .const none
  let proto ← alloc { proto := ← prototypeParent heritage }
  let members := (← part (n.child? .body)).namedChildren
  let written := constructorNode? source members
  let closure : Closure :=
    { name := Text.ofString name, node := written, scope, isMethod := true,
      isClassConstructor := true,
      isDerived := match heritage with | .parent _ => true | _ => false
      home := some proto }
  let functionProto := (← realm).functionProto
  let parent := match heritage with
    | .parent r => r
    | _ => functionProto
  let constructor ← alloc { proto := some parent, content := .closure closure }
  define constructor "prototype" (.object proto)
  define proto "constructor" (.object constructor)
  let statics ← evalMembers constructor proto written scope members []
  if !name.isEmpty then declare scope name .const (some (.object constructor))
  let inside ← allocScope
    { parent := some scope, hasThis := true, this := some (.object constructor),
      function := some constructor, home := some constructor }
  each (runStatic constructor inside) statics
  return .object constructor

end Action
end Stepper.Machine
