import Stepper.Instrument.Hook
import Stepper.Syntax.Names
import Stepper.Syntax.Tree

/-!
Where a program is to be observed: which statements are steps, which names are captured after a
statement or at the start of a loop's body, which nodes are functions and which returns leave one.
Marks are kept by node number; steps are numbered in preorder.
-/
namespace Stepper.Instrument

open Syntax

structure Marks where
  step : Option StepMarker := none
  /-- Names captured after the statement. -/
  after : List String := []
  /-- Names captured where the body of a loop begins. -/
  atStart : List String := []
  function : Option FunctionMarker := none
  /-- A return out of a function. -/
  leaves : Bool := false
  deriving Inhabited

/-- Marks by node number, and the number of steps so far. -/
structure Plan where
  marks : Array Marks
  steps : Nat := 0
  deriving Inhabited

namespace Plan

def get (p : Plan) (n : Node) : Marks := p.marks.getD n.id {}

def modify (p : Plan) (n : Node) (f : Marks → Marks) : Plan :=
  { p with marks := p.marks.modify n.id f }

end Plan

def isStepKind : Kind → Bool
  | .expressionStatement | .lexicalDeclaration | .variableDeclaration | .ifStatement
  | .whileStatement | .doStatement | .forStatement | .forInStatement | .returnStatement
  | .breakStatement | .continueStatement | .throwStatement | .tryStatement | .switchStatement
  | .labeledStatement | .functionDeclaration | .generatorFunctionDeclaration | .classDeclaration
  | .debuggerStatement | .importStatement | .exportStatement => true
  | _ => false

/-- Whether the statements below a node form a list. -/
def holdsStatements : Kind → Bool
  | .program | .statementBlock | .switchCase | .switchDefault => true
  | _ => false

def isAssignmentKind : Kind → Bool
  | .assignmentExpression | .augmentedAssignmentExpression => true
  | _ => false

/-- Whether `n` is the given part of its parent. -/
def isPart (parent : Node) (f : Field) (n : Node) : Bool :=
  match parent.child? f with
  | some c => c.id == n.id
  | none => false

/-- Whether a node runs as a statement of its parent, and is no clause of a loop head. -/
def inStatementPosition (parent : Option Node) (n : Node) : Bool :=
  match parent with
  | none => false
  | some p =>
    if holdsStatements p.kind then true
    else if p.kind == .elseClause then n.named && !n.kind.isComment
    else if p.kind == .ifStatement then isPart p .consequence n
    else if p.kind.isLoop then isPart p .body n
    else false

/-- A statement that is a body of its own can only take company inside braces. -/
def needsBraces (parent : Option Node) : Bool :=
  match parent with
  | none => false
  | some p => !holdsStatements p.kind

/-- The value a return gives back. -/
def returnedNode? (n : Node) : Option Node := n.namedChildren.head?

def dedup (names : List String) : List String :=
  names.foldl (fun acc n => if acc.contains n then acc else acc ++ [n]) []

def targetNames (source : String) (target : Option Node) : List String :=
  match target with
  | none => []
  | some t =>
    match t.kind with
    | .identifier => [t.text source]
    | .arrayPattern | .objectPattern => t.boundNames source
    | _ => []

mutual
/-- The names an expression assigns to when it runs as a statement. -/
def assignedNames (source : String) (n : Node) : List String :=
  match n with
  | ⟨kind, b, c, d, e, f, g, h, i, j, cs⟩ =>
    let self : Node := ⟨kind, b, c, d, e, f, g, h, i, j, cs⟩
    match kind with
    | .assignmentExpression | .augmentedAssignmentExpression =>
      let left := self.child? .left
      targetNames source (match left with
        | some l => if l.kind == .parenthesizedExpression then l.namedChildren.head? else left
        | none => none)
    | .updateExpression => targetNames source (self.child? .argument)
    | .sequenceExpression => assignedNamesAll source cs
    | _ => []
termination_by structural n

def assignedNamesAll (source : String) (ns : List Node) : List String :=
  match ns with
  | [] => []
  | n :: ns =>
    (if n.named && !n.kind.isComment then assignedNames source n else []) ++
      assignedNamesAll source ns
termination_by structural ns
end

def anonymous : String := "anonymous"

/-- The name of the class a constructor belongs to, from the nodes around the constructor. -/
def className (source : String) (ancestors : List Node) : String :=
  match ancestors with
  | _ :: cls :: rest =>
    match cls.child? .name with
    | some n => n.text source
    | none =>
      match rest with
      | p :: _ =>
        if p.kind == .variableDeclarator then
          match p.child? .name with
          | some t => t.text source
          | none => ""
        else ""
      | [] => ""
  | _ => ""

/-- The name of a function: its own, or that of what it is given to. -/
def functionName (source : String) (ancestors : List Node) (n : Node) : String :=
  match n.child? .name with
  | some m =>
    let name := m.text source
    if n.kind == .methodDefinition && name == "constructor" then
      let c := className source ancestors
      if c.isEmpty then name else c
    else name
  | none =>
    match ancestors with
    | [] => anonymous
    | p :: _ =>
      let named (f : Field) (kinds : List Kind) : Option String :=
        match p.child? f with
        | some t => if kinds.contains t.kind then some (t.text source) else none
        | none => none
      if p.kind == .variableDeclarator then (named .name [.identifier]).getD anonymous
      else if isAssignmentKind p.kind then (named .left [.identifier]).getD anonymous
      else if p.kind == .pair then (named .key [.propertyIdentifier, .identifier]).getD anonymous
      else anonymous

def parameterNames (source : String) (n : Node) : List String :=
  n.parameterNodes.flatMap (·.boundNames source)

def markStep (ancestors : List Node) (n : Node) (p : Plan) : Plan :=
  if ancestors.head?.any fun a => a.kind == .labeledStatement then p
  else { p.modify n fun m =>
         { m with step := some ⟨p.steps, n.startLine⟩ } with steps := p.steps + 1 }

def markCaptures (source : String) (n : Node) (p : Plan) : Plan :=
  let names :=
    if n.kind.isDeclaration then n.declaredNames source
    else if n.kind == .expressionStatement then
      match n.namedChildren.head? with
      | some e => assignedNames source e
      | none => []
    else []
  if names.isEmpty then p else p.modify n fun m => { m with after := dedup names }

/-- The names that the head of a loop sets. -/
def headNames (source : String) (n : Node) : List String :=
  if n.kind == .forStatement then
    match n.child? .initializer with
    | some i => if i.kind.isDeclaration then i.declaredNames source else []
    | none => []
  else if n.kind == .forInStatement then
    if (n.child? .kind).isSome then Node.boundNames? source (n.child? .left)
    else targetNames source (n.child? .left)
  else []

def markHead (source : String) (n : Node) (p : Plan) : Plan :=
  match n.child? .body with
  | none => p
  | some body =>
    let names := headNames source n
    if names.isEmpty then p
    else p.modify body fun m => { m with atStart := dedup (m.atStart ++ names) }

/-- Marks a node; `inFunction` says whether a function with a body encloses it. Also whether one
encloses its children. -/
def markNode (source : String) (ancestors : List Node) (inFunction : Bool) (n : Node) (p : Plan) :
    Plan × Bool :=
  let p :=
    if isStepKind n.kind && inStatementPosition ancestors.head? n then
      markCaptures source n (markStep ancestors n p)
    else p
  let p := if n.kind.isLoop then markHead source n p else p
  let (p, inFunction) :=
    if n.kind.isFunction && (n.child? .body).isSome then
      (p.modify n fun m => { m with
        function := some ⟨functionName source ancestors n, parameterNames source n⟩ }, true)
    else (p, inFunction)
  let p :=
    if n.kind == .returnStatement && inFunction then
      p.modify n fun m => { m with leaves := true } else p
  (p, inFunction)

mutual
def planNode (source : String) (ancestors : List Node) (inFunction : Bool) (n : Node) (p : Plan) :
    Plan :=
  match n with
  | ⟨a, b, c, d, e, f, g, h, i, j, cs⟩ =>
    let self : Node := ⟨a, b, c, d, e, f, g, h, i, j, cs⟩
    let (p, inFunction) := markNode source ancestors inFunction self p
    planNodes source (self :: ancestors) inFunction cs p
termination_by structural n

def planNodes (source : String) (ancestors : List Node) (inFunction : Bool) (ns : List Node)
    (p : Plan) : Plan :=
  match ns with
  | [] => p
  | n :: ns => planNodes source ancestors inFunction ns (planNode source ancestors inFunction n p)
termination_by structural ns
end

/-- The plan for a whole program. -/
def planOf (p : Program) : Plan :=
  planNode p.source [] false p.root ⟨Array.replicate p.root.size {}, 0⟩

end Stepper.Instrument
