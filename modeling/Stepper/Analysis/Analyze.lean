import Stepper.Analysis.Complexity
import Stepper.Analysis.Report
import Stepper.Syntax.Tree

/-!
The report on a program. Every part of it is read off the named nodes in preorder, each with the
nodes around it.
-/
namespace Stepper.Analysis

open Syntax

/-- A node and the nodes around it, nearest first. -/
structure Sited where
  node : Node
  ancestors : List Node

mutual
/-- The nodes of a tree in preorder, each with the nodes around it. -/
def sited (ancestors : List Node) (n : Node) : List Sited :=
  match n with
  | ⟨a, b, c, d, e, f, g, h, i, j, cs⟩ =>
    let self : Node := ⟨a, b, c, d, e, f, g, h, i, j, cs⟩
    ⟨self, ancestors⟩ :: sitedAll (self :: ancestors) cs
termination_by structural n

def sitedAll (ancestors : List Node) (ns : List Node) : List Sited :=
  match ns with
  | [] => []
  | n :: ns => sited ancestors n ++ sitedAll ancestors ns
termination_by structural ns
end

def isStatementKind : Kind → Bool
  | .expressionStatement | .statementBlock | .ifStatement | .whileStatement | .doStatement
  | .forStatement | .forInStatement | .returnStatement | .breakStatement | .continueStatement
  | .throwStatement | .tryStatement | .switchStatement | .labeledStatement | .emptyStatement
  | .debuggerStatement | .lexicalDeclaration | .variableDeclaration | .functionDeclaration
  | .generatorFunctionDeclaration | .classDeclaration | .importStatement | .exportStatement => true
  | _ => false

def isExpressionKind : Kind → Bool
  | .callExpression | .memberExpression | .subscriptExpression | .binaryExpression
  | .unaryExpression | .updateExpression | .assignmentExpression | .augmentedAssignmentExpression
  | .ternaryExpression | .array | .object | .functionExpression | .functionWord | .arrowFunction
  | .newExpression | .thisWord | .sequenceExpression | .awaitExpression | .yieldExpression
  | .classExpression => true
  | _ => false

def functionKind : Kind → String
  | .functionDeclaration | .generatorFunctionDeclaration => "declaration"
  | .arrowFunction => "arrow"
  | .methodDefinition => "method"
  | _ => "expression"

def functionName (source : String) (n : Node) : String :=
  if n.kind == .arrowFunction then "arrow function"
  else match n.child? .name with
    | some m => m.text source
    | none => "anonymous"

/-- The name of a parameter, or its text where it binds several names or none. -/
def parameterName (source : String) (n : Node) : String :=
  match n.boundNames source with
  | [name] => name
  | _ => n.text source

/-- Whether a function calls its own name somewhere in it. -/
def isRecursive (source : String) (n : Node) (name : String) : Bool :=
  if n.kind == .arrowFunction || n.kind == .methodDefinition || (n.child? .name).isNone then false
  else n.walk.any fun m =>
    m.kind == .callExpression &&
      match m.child? .function with
      | some c => c.kind == .identifier && c.text source == name
      | none => false

def functionInfo (source : String) (n : Node) : FunctionInfo :=
  let name := functionName source n
  { kind := functionKind n.kind
    name
    parameters := n.parameterNodes.map (parameterName source)
    line := n.startLine
    column := n.startPoint.column
    complexity := complexity source n
    isRecursive := isRecursive source n name }

/-- Where a declaration's names live. -/
def scopeTag (s : Sited) (word : String) : String :=
  let function := s.ancestors.find? fun a => a.kind.isFunction
  if word == "var" then if function.isSome then "function" else "global"
  else match s.ancestors with
    | [] => "block"
    | p :: _ =>
      if p.kind == .program then "global"
      else match function with
        | some f => match f.child? .body with
          | some b => if b.id == p.id then "function" else "block"
          | none => "block"
        | none => "block"

def declaredVariables (source : String) (s : Sited) : List VariableInfo :=
  let word := s.node.declarationWord source
  let scope := scopeTag s word
  s.node.children.filterMap fun d =>
    if d.kind != .variableDeclarator then none
    else match d.child? .name with
      | some t =>
        if t.kind == .identifier then
          some ⟨t.text source, word, d.startLine, d.startPoint.column, (d.child? .value).isSome,
            false, scope⟩
        else none
      | none => none

def headVariables (source : String) (s : Sited) : List VariableInfo :=
  match s.node.child? .kind, s.node.child? .left with
  | some k, some t =>
    if t.kind == .identifier then
      let word := k.text source
      [⟨t.text source, word, t.startLine, t.startPoint.column, false, false, scopeTag s word⟩]
    else []
  | _, _ => []

def variableInfos (source : String) (s : Sited) : List VariableInfo :=
  if s.node.kind.isDeclaration then declaredVariables source s
  else if s.node.kind == .forInStatement then headVariables source s
  else []

/-- The name a node sets anew. -/
def reassigned? (source : String) (n : Node) : Option String :=
  let target (f : Field) : Option String :=
    match n.child? f with
    | some t => if t.kind == .identifier then some (t.text source) else none
    | none => none
  match n.kind with
  | .assignmentExpression | .augmentedAssignmentExpression => target .left
  | .updateExpression => target .argument
  | _ => none

def loop? (n : Node) : Option LoopInfo :=
  let plain (kind : String) (isInfinite : Bool) : LoopInfo :=
    ⟨kind, n.startLine, n.startPoint.column, none, none, none, isInfinite⟩
  match n.kind with
  | .forStatement => some { plain "for" (isInfiniteLoop n) with
      hasInit := some (Node.unwrapClause (n.child? .initializer)).isSome
      hasTest := some (Node.unwrapClause (n.child? .condition)).isSome
      hasUpdate := some (n.child? .increment).isSome }
  | .whileStatement => some (plain "while" (isInfiniteLoop n))
  | .doStatement => some (plain "do-while" false)
  | .forInStatement => some (plain (if n.hasToken "of" then "for-of" else "for-in") false)
  | _ => none

/-- One more than the number of binary operations in a test. -/
def testComplexity (test : Option Node) : Nat :=
  match test with
  | none => 1
  | some t => 1 + t.walk.countP fun n => n.kind == .binaryExpression

def conditional? (n : Node) : Option ConditionalInfo :=
  let plain (kind : String) : ConditionalInfo :=
    ⟨kind, n.startLine, n.startPoint.column, none, none, none, none, none⟩
  match n.kind with
  | .ifStatement =>
    let alternative := n.child? .alternative
    let first := match alternative with
      | some a => a.namedChildren.head?
      | none => none
    some { plain "if" with
      hasElse := some alternative.isSome
      isElseIf := some (first.any fun f => f.kind == .ifStatement)
      complexity := some (testComplexity (n.child? .condition)) }
  | .ternaryExpression =>
    some { plain "ternary" with complexity := some (testComplexity (n.child? .condition)) }
  | .switchStatement =>
    let cases : List Node := match n.child? .body with
      | some b => b.children.filter fun c : Node =>
          c.kind == .switchCase || c.kind == .switchDefault
      | none => []
    some { plain "switch" with
      caseCount := some cases.length
      hasDefault := some (cases.any fun c : Node => c.kind == .switchDefault) }
  | _ => none

def knownFunctions : List String :=
  ["parseInt", "parseFloat", "isNaN", "isFinite", "setTimeout", "setInterval"]

def knownObjects : List String :=
  ["console", "Math", "Date", "Array", "Object", "String", "Number", "JSON"]

def calledFunction? (source : String) (n : Node) : Option String :=
  if n.kind != .callExpression then none
  else match n.child? .function with
    | some c =>
      if c.kind == .identifier && knownFunctions.contains (c.text source) then
        some (c.text source) else none
    | none => none

def calledObject? (source : String) (n : Node) : Option String :=
  if n.kind != .callExpression then none
  else match n.child? .function with
    | some c =>
      if c.kind != .memberExpression then none
      else match c.child? .object with
        | some o =>
          if o.kind == .identifier && knownObjects.contains (o.text source) then
            some (o.text source) else none
        | none => none
    | none => none

def importedNames (source : String) (part : Node) : List String :=
  match part.kind with
  | .identifier => [part.text source]
  | .namespaceImport =>
    (part.namedChildren.filter fun c => c.kind == .identifier).map (·.text source)
  | .namedImports => part.namedChildren.filterMap fun item =>
      ((item.child? .alias).or (item.child? .name)).map (·.text source)
  | _ => []

def import? (source : String) (n : Node) : Option ImportInfo :=
  if n.kind != .importStatement then none
  else
    let path := match n.child? .source with
      | some s => String.ofList ((s.text source).toList.drop 1).dropLast
      | none => ""
    some ⟨path, n.children.flatMap fun c =>
      if c.kind == .importClause then c.namedChildren.flatMap (importedNames source) else []⟩

def suggestions (source : String) (n : Node) : List Suggestion :=
  if n.kind.isFunction then
    let name := functionName source n
    if complexityThreshold < complexity source n then
      [⟨"warning", s!"Function '{name}' has high complexity. Consider breaking it down.",
        n.startLine, .high⟩]
    else []
  else if n.kind.isDeclaration then
    if n.declarationWord source == "var" then
      [⟨"warning", "Consider using let or const instead of var", n.startLine, .medium⟩]
    else []
  else if isInfiniteLoop n then
    [⟨"error", "Potential infinite loop detected", n.startLine, .critical⟩]
  else []

def firstOccurrences (names : List String) : List String :=
  names.foldl (fun acc n => if acc.contains n then acc else acc ++ [n]) []

def report (p : Program) : Report :=
  let source := p.source
  let all := (sited [] p.root).filter fun s => s.node.named
  let nodes := all.map Sited.node
  let setAnew := nodes.filterMap (reassigned? source)
  let functions := (nodes.filter fun n => n.kind.isFunction).map (functionInfo source)
  let vars := (all.flatMap (variableInfos source)).map fun v =>
    { v with reassigned := setAnew.contains v.name }
  let complexity := 1 + nodes.countP (isDecision source)
  { functions, vars, complexity
    loops := nodes.filterMap loop?
    conditionals := nodes.filterMap conditional?
    dependencies :=
      { builtins := firstOccurrences (nodes.filterMap (calledFunction? source))
        globals := firstOccurrences (nodes.filterMap (calledObject? source))
        imports := nodes.filterMap (import? source) }
    suggestions := nodes.flatMap (suggestions source)
    metrics :=
      { linesOfCode :=
          (nodes.filter fun n => n.kind != .program).foldl (fun m n => max m n.stopLine) 0
        statements := nodes.countP fun n => isStatementKind n.kind
        expressions := nodes.countP fun n => isExpressionKind n.kind
        functions := functions.length
        vars := vars.length
        complexity } }

end Stepper.Analysis
