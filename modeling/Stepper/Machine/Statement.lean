import Stepper.Machine.Expression

/-!
Statements. A loop goes on until its test fails or something leaves it; what leaves it without a
label or with one of its own labels ends there, and everything else goes on outwards.
-/
namespace Stepper.Machine

open Syntax

namespace Action

def execAll (ns : List Node) (e : ScopeRef) : Action Unit := each (fun n => exec n e) ns

def execBlock (n : Node) (e : ScopeRef) : Action Unit := do
  let inside ← childScope e
  let statements := n.namedChildren
  hoistBlock statements inside
  execAll statements inside

def execDeclaration (n : Node) (e : ScopeRef) : Action Unit := do
  let word := n.declarationWord (← source)
  let mode := if word == "var" then BindMode.var else .declare (declarationKind word)
  each (fun (d : Node) => do
    if d.kind == .variableDeclarator then
      let target ← part (d.child? .name)
      match d.child? .value with
      | none => if word == "var" then pure () else bindTarget target .undefined e mode
      | some value =>
        let hint ← if target.kind == .identifier then nameHint target else pure []
        bindTarget target (← evalNamed value e hint) e mode) n.children

def execIf (n : Node) (e : ScopeRef) : Action Unit := do
  let test ← eval (← part (n.child? .condition)) e
  if test.truth then exec (← part (n.child? .consequence)) e
  else match n.child? .alternative with
    | none => pure ()
    | some alternative => execAll alternative.namedChildren e

/-- Whether a loop is where a signal ends. -/
def owns (labels : List String) (label : Option String) : Bool := match label with
  | none => true
  | some l => labels.contains l

/-- Runs the body of a loop; whether the loop goes on. -/
def execBody (n : Node) (e : ScopeRef) (labels : List String) : Action Bool := do
  match ← attempt (exec n e) with
  | .ok _ => return true
  | .error (.left label) => if owns labels label then return false else interrupt (.left label)
  | .error (.continued label) =>
      if owns labels label then return true else interrupt (.continued label)
  | .error i => interrupt i

def execWhile (n : Node) (e : ScopeRef) (labels : List String) : Action Unit := do
  let condition ← part (n.child? .condition)
  let body ← part (n.child? .body)
  repeating () fun _ => do
    if !(← eval condition e).truth then return .inr ()
    if ← execBody body e labels then return .inl () else return .inr ()

def execDo (n : Node) (e : ScopeRef) (labels : List String) : Action Unit := do
  let condition ← part (n.child? .condition)
  let body ← part (n.child? .body)
  repeating () fun _ => do
    if !(← execBody body e labels) then return .inr ()
    if (← eval condition e).truth then return .inl () else return .inr ()

/-- A new scope for one round of a loop, with copies of the bindings that belong to a round. -/
def roundScope (from_ : ScopeRef) (parent : ScopeRef) (names : List String) :
    Action ScopeRef := do
  if names.isEmpty then return from_
  let old ← scope from_
  let bindings := names.filterMap fun n => (old.bindings.get? n).map fun b => (n, b)
  allocScope { parent := some parent, bindings := OrderedMap.ofList bindings }

/-- The head of a `for` before its first round: its scope and the names that are new in each round.
-/
def execForHead (initializer : Option Node) (e : ScopeRef) : Action (List String) := do
  match initializer with
  | some i =>
    if i.kind.isDeclaration then
      execDeclaration i e
      let source ← source
      return if i.kind == .lexicalDeclaration then i.declaredNames source else []
    else
      match Node.unwrapClause initializer with
      | some x => let _ ← eval x e
      | none => pure ()
      return []
  | none => return []

def execFor (n : Node) (e : ScopeRef) (labels : List String) : Action Unit := do
  let condition := Node.unwrapClause (n.child? .condition)
  let increment := n.child? .increment
  let body ← part (n.child? .body)
  let head ← childScope e
  let names ← execForHead (n.child? .initializer) head
  let first ← roundScope head e names
  repeating first fun round => do
    let goesOn ← match condition with
      | some c => do pure (← eval c round).truth
      | none => pure true
    if !goesOn then return .inr ()
    if !(← execBody body round labels) then return .inr ()
    let next ← roundScope round e names
    match increment with
    | some i => let _ ← eval i next
    | none => pure ()
    return .inl next

/-- Runs the body of a loop over items for one of them; whether the loop goes on. -/
def execItem (n : Node) (body : Node) (word : String) (v : Value) (e : ScopeRef)
    (labels : List String) : Action Bool := do
  let left ← part (n.child? .left)
  if word == "let" || word == "const" then
    let inside ← childScope e
    bindTarget left v inside (.declare (declarationKind word))
    execBody body inside labels
  else
    bindTarget left v e (if word == "var" then .var else .assign)
    execBody body e labels

/-- A loop over items that are known before it starts. -/
def execItems (n : Node) (body : Node) (word : String) (e : ScopeRef) (labels : List String)
    (items : List Value) : Action Unit :=
  repeating items fun items => do
    match items with
    | [] => return .inr ()
    | v :: vs =>
      if ← execItem n body word v e labels then return .inl vs else return .inr ()

/-- A loop over the elements of an array, as they are when their turn comes. -/
def execElements (n : Node) (body : Node) (word : String) (e : ScopeRef) (labels : List String)
    (r : Ref) : Action Unit :=
  repeating 0 fun i => do
    match (← object r).elements[i]? with
    | none => return .inr ()
    | some v =>
      if ← execItem n body word v e labels then return .inl (i + 1) else return .inr ()

def isOfLoop (source : String) (n : Node) : Bool := match n.child? .operator with
  | some o => o.text source == "of"
  | none => n.hasToken "of"

def execForIn (n : Node) (e : ScopeRef) (labels : List String) : Action Unit := do
  let source ← source
  let body ← part (n.child? .body)
  let word := ((n.child? .kind).map (Node.text source)).getD ""
  let collection ← eval (← part (n.child? .right)) e
  if isOfLoop source n then
    match collection with
    | .object r =>
      if (← object r).isArray then execElements n body word e labels r
      else execItems n body word e labels (← iterate collection)
    | _ => execItems n body word e labels (← iterate collection)
  else
    let keys ← if collection.isNullish then pure [] else enumerableKeys collection
    execItems n body word e labels (keys.map .text)

def execReturn (n : Node) (e : ScopeRef) : Action Unit := do
  match n.namedChildren.head? with
  | some x => interrupt (.returned (← eval x e))
  | none => interrupt (.returned .undefined)

def labelOf (n : Node) : Action (Option String) := do
  match n.child? .label with
  | some l => return some (← textOf l)
  | none => return none

/-- What the program sees of something it can catch. -/
def caught? (i : Interrupt) : Option (Action Value) := match i with
  | .thrown v => some (pure v)
  | .raised kind message => some (errorObject kind message)
  | _ => none

def runHandler (handler : Node) (v : Action Value) (e : ScopeRef) : Action Unit := do
  let inside ← childScope e
  match handler.child? .parameter with
  | some p => bindTarget p (← v) inside (.declare .let_)
  | none => pure ()
  exec (← part (handler.child? .body)) inside

/-- The guarded block and its handler. -/
def execGuarded (n : Node) (e : ScopeRef) : Action Unit := do
  let body ← part (n.child? .body)
  match n.child? .handler with
  | none => exec body e
  | some handler =>
    match ← attempt (exec body e) with
    | .ok _ => pure ()
    | .error i =>
      match caught? i with
      | some v => runHandler handler v e
      | none => interrupt i

/-- The finalizer runs whatever happened, unless the host ended the run; what it does by itself to
leave the statement replaces what happened. -/
def execTry (n : Node) (e : ScopeRef) : Action Unit := do
  match n.child? .finalizer with
  | none => execGuarded n e
  | some finalizer =>
    match ← attempt (execGuarded n e) with
    | .error .stopped => interrupt .stopped
    | .error i =>
      exec (← part (finalizer.child? .body)) e
      interrupt i
    | .ok _ => exec (← part (finalizer.child? .body)) e

/-- The first case whose value is the discriminant. -/
def matchingCase (discriminant : Value) (e : ScopeRef) : List Node → Nat → Action (Option Nat)
  | [], _ => pure none
  | c :: cs, i => do
    if c.kind == .switchCase then
      let v ← eval (← part (c.child? .value)) e
      if v.same discriminant then return some i
    matchingCase discriminant e cs (i + 1)

def caseStatements (c : Node) : List Node :=
  match c.child? .value with
  | none => c.namedChildren
  | some v => c.namedChildren.filter fun s => s.id != v.id

def execSwitch (n : Node) (e : ScopeRef) (labels : List String) : Action Unit := do
  let discriminant ← eval (← part (n.child? .value)) e
  let cases := (← part (n.child? .body)).namedChildren.filter fun (c : Node) =>
    c.kind == .switchCase || c.kind == .switchDefault
  let inside ← childScope e
  each (fun c => hoistBlock (caseStatements c) inside) cases
  let start ← match ← matchingCase discriminant inside cases 0 with
    | some i => pure (some i)
    | none => pure (cases.findIdx? fun (c : Node) => c.kind == .switchDefault)
  match start with
  | none => pure ()
  | some i =>
    match ← attempt (each (fun c => execAll (caseStatements c) inside) (cases.drop i)) with
    | .ok _ => pure ()
    | .error (.left label) => if owns labels label then pure () else interrupt (.left label)
    | .error i => interrupt i

/-- Whether a statement takes the labels before it. -/
def takesLabels (k : Kind) : Bool := k.isLoop || k == .labeledStatement || k == .switchStatement

def execLabeledStatement (n : Node) (e : ScopeRef) (labels : List String) : Action Unit := do
  let labels := (← textOf (← part (n.child? .label))) :: labels
  let body ← part (n.child? .body)
  if takesLabels body.kind then execLabeled body e labels
  else match ← attempt (exec body e) with
    | .ok _ => pure ()
    | .error (.left (some l)) => if labels.contains l then pure () else interrupt (.left (some l))
    | .error i => interrupt i

def execute (n : Node) (e : ScopeRef) (labels : List String) : Action Unit := do
  match n.kind with
  | .expressionStatement =>
    match n.namedChildren.head? with
    | some x => let _ ← eval x e
    | none => pure ()
  | .lexicalDeclaration | .variableDeclaration => execDeclaration n e
  | .statementBlock => execBlock n e
  | .ifStatement => execIf n e
  | .whileStatement => execWhile n e labels
  | .doStatement => execDo n e labels
  | .forStatement => execFor n e labels
  | .forInStatement => execForIn n e labels
  | .returnStatement => execReturn n e
  | .breakStatement => interrupt (.left (← labelOf n))
  | .continueStatement => interrupt (.continued (← labelOf n))
  | .throwStatement => interrupt (.thrown (← eval (← firstChild n) e))
  | .tryStatement => execTry n e
  | .switchStatement => execSwitch n e labels
  | .labeledStatement => execLabeledStatement n e labels
  | .emptyStatement | .debuggerStatement | .functionDeclaration | .generatorFunctionDeclaration
  | .comment | .htmlComment => pure ()
  | .classDeclaration =>
    match ← evalClass n e with
    | .object r => declare e (← object r).functionName.toStr .class_ (some (.object r))
    | _ => fault .wrongKind
  | .importStatement | .exportStatement =>
    raise .syntaxError "Cannot use import statement outside a module"
  | _ => raise .syntaxError (Text.ofString ("Unsupported statement: " ++ n.kind.name))

end Action
end Stepper.Machine
