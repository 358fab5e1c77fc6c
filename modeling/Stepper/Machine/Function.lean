import Stepper.Machine.Property
import Stepper.Syntax.Walk

/-!
Functions of the program: how they are made, called and constructed, what their bodies declare
before they run, and how a class's constructor comes to its `this`.
-/
namespace Stepper.Machine

open Syntax

/-- The greatest number of function bodies that run at once. -/
def maxDepth : Nat := 200

def isGenerator : Kind → Bool
  | .generatorFunctionDeclaration | .generatorFunction => true
  | _ => false

/-- Expressions that take the name of what they are assigned to. -/
def takesName : Kind → Bool
  | .arrowFunction | .functionExpression | .functionWord | .classExpression => true
  | _ => false

namespace Action

/-- A part of the tree that has to be there. -/
def part (n : Option Node) : Action Node := match n with
  | some n => pure n
  | none => fault .wrongKind

def firstChild (n : Node) : Action Node := part n.namedChildren.head?

/-- The value of an expression; a function without a name takes the given one. -/
def evalNamed (n : Node) (e : ScopeRef) (name : Text) : Action Value := do
  let v ← eval n e
  if !name.isEmpty && takesName n.kind then
    match v with
    | .object r =>
      update r fun o => match o.content with
        | .closure c => if c.name.isEmpty then { o with content := .closure { c with name } } else o
        | _ => o
    | _ => pure ()
  return v

/-- A function for a node that defines one. Methods and arrows make no objects of their own. -/
def makeFunction (n : Node) (e : ScopeRef) (name : Text) (home : Option Ref) (isMethod : Bool) :
    Action Value := do
  let written ← match n.child? .name with
    | some m => do pure (some (← textOf m))
    | none => pure none
  let name := if name.isEmpty && n.kind != .methodDefinition
      then Text.ofString (written.getD "") else name
  let isArrow := n.kind == .arrowFunction
  let bindsItself := written.isSome &&
    (n.kind == .functionExpression || n.kind == .functionWord || n.kind == .generatorFunction)
  let scope ← if bindsItself then childScope e else pure e
  let closure : Closure := { name, node := some n, scope, isArrow, isMethod, home }
  let f ← alloc { proto := some (← realm).functionProto, content := .closure closure }
  if bindsItself then declare scope name.toStr .const (some (.object f))
  if !isArrow && !isMethod then
    let proto ← newObject
    define proto "constructor" (.object f)
    define f "prototype" (.object proto)
  return .object f

def declarationKind (word : String) : BindingKind :=
  if word == "var" then .var else if word == "const" then .const else .let_

/-- Declares the names of a list of statements: functions with their values, the others without. -/
def hoistBlock (statements : List Node) (e : ScopeRef) : Action Unit := do
  let source ← source
  each (fun (n : Node) => do
    match n.kind with
    | .functionDeclaration | .generatorFunctionDeclaration =>
      let name ← textOf (← part (n.child? .name))
      declare e name .function (some (← makeFunction n e [] none false))
    | .lexicalDeclaration =>
      let kind := declarationKind (n.declarationWord source)
      each (fun name => declare e name kind none) (n.declaredNames source)
    | .classDeclaration =>
      declare e (← textOf (← part (n.child? .name))) .class_ none
    | _ => pure ()) statements

/-- The names that `var` declares in the scope of a function. -/
def varNames (source : String) (body : Node) : List String :=
  body.walkScope.flatMap fun n =>
    match n.kind with
    | .variableDeclaration => n.declaredNames source
    | .forInStatement =>
      match n.child? .kind with
      | some k => if k.text source == "var" then Node.boundNames? source (n.child? .left) else []
      | none => []
    | _ => []

/-- Declares all that the body of a function declares. -/
def hoistFunction (body : Node) (e : ScopeRef) : Action Unit := do
  let source ← source
  each (fun name => declare e name .var (some .undefined)) (varNames source body)
  hoistBlock body.namedChildren e

def closureOf? (o : Object) : Option Closure := match o.content with
  | .closure c => some c
  | _ => none

def bindParameters (params : List Node) (args : List Value) (e : ScopeRef) : Action Unit :=
  match params with
  | [] => pure ()
  | p :: ps => do
    if p.kind == .restPattern then
      bindTarget (← firstChild p) (← newArray args) e (.declare .param)
    else
      bindTarget p (args.head?.getD .undefined) e (.declare .param)
      bindParameters ps args.tail e

/-- The scope in which the body of a function runs. -/
def callScope (f : Ref) (c : Closure) (this : Option Value) (newTarget : Option Ref) :
    Action ScopeRef :=
  allocScope
    { parent := some c.scope, hasThis := !c.isArrow, this, function := some f,
      home := c.home, newTarget }

/-- Gives a new object the fields of a class. -/
def initializeFields (f : Ref) (this : Ref) : Action Unit := do
  match closureOf? (← object f) with
  | none => pure ()
  | some c =>
    each (fun (field : Text × Option Node) => do
      let e ← allocScope
        { parent := some c.scope, hasThis := true, this := some (.object this), function := some f,
          home := c.home }
      let v ← match field.2 with
        | none => pure .undefined
        | some n => evalNamed n e field.1
      define this field.1 v) c.fields

/-- Calls the constructor that a class extends, and decides `this` by what it gives. -/
def superConstruct (args : List Value) (e : ScopeRef) : Action Unit := do
  let e := (← scopes).functionScope e
  let s ← scope e
  let extended ← match s.function with
    | none => pure none
    | some f => do
      let o ← object f
      pure (if (closureOf? o).isSome then o.proto.map fun p => (f, p) else none)
  match extended with
  | none => typeError "Super constructor is not a constructor"
  | some (f, parent) =>
    if !(← isCallable (.object parent)) then typeError "Super constructor is not a constructor"
    if s.this.isSome then raise .referenceError "Super constructor may only be called once"
    let this ← construct (.object parent) args (.object (s.newTarget.getD f))
    setThis e this
    match this with
    | .object r => initializeFields f r
    | _ => fault .wrongKind

/-- What the body of a function comes to: an error past the machine's own nesting is one of the
program. -/
def finishBody (x : Except Interrupt Value) : Action Value :=
  match x with
  | .ok v => pure v
  | .error (.returned v) => pure v
  | .error (.fault .nestingTooDeep) => raise .rangeError "Maximum call stack size exceeded"
  | .error i => interrupt i

def runBody (c : Closure) (n : Node) (e : ScopeRef) (args : List Value) : Action Value := do
  if !c.isArrow then declare e "arguments" .var (some (← newArray args))
  bindParameters n.parameterNodes args e
  let body ← part (n.child? .body)
  if body.kind != .statementBlock then eval body e
  else
    hoistFunction body e
    each (fun s => exec s e) body.namedChildren
    return .undefined

def invoke (c : Closure) (e : ScopeRef) (args : List Value) : Action Value := do
  match c.node with
  | none =>
    if c.isDerived then superConstruct args e
    return .undefined
  | some n =>
    if isGenerator n.kind then typeError "Generator functions are not supported"
    if maxDepth ≤ (← depth) then raise .rangeError "Maximum call stack size exceeded"
    finishBody (← attempt (deeper (runBody c n e args)))

/-- Calls a function of the program. -/
def callClosure (f : Ref) (c : Closure) (this : Value) (args : List Value) : Action Value := do
  if c.isClassConstructor then
    typeError
      (("Class constructor " : Text) ++ c.name ++ (" cannot be invoked without 'new'" : Text))
  invoke c (← callScope f c (some this) none) args

def notConstructor (v : Value) : Action Value := do
  typeError ((← describe v) ++ (" is not a constructor" : Text))

/-- Makes an object by a function of the program. -/
def constructClosure (f : Ref) (c : Closure) (args : List Value) (newTarget : Value) :
    Action Value := do
  if c.isArrow || (c.isMethod && !c.isClassConstructor) then notConstructor (.object f)
  else
    let this ← if c.isDerived then pure none
      else do
        let proto ← prototypeFor newTarget (← realm).objectProto
        let r ← alloc { proto := some proto }
        initializeFields f r
        pure (some (.object r))
    let e ← callScope f c this newTarget.ref?
    match ← invoke c e args with
    | .object r => return .object r
    | _ => Action.this e

end Action
end Stepper.Machine
