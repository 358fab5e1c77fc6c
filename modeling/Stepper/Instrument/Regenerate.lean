import Stepper.Instrument.Insertion

/-!
Decorating a program by printing it anew from its tree: statements on lines of their own with their
calls on lines of their own, expressions child by child with the text between the children kept.
Comments are dropped. A node of a kind that cannot be printed becomes a comment that names the kind.
-/
namespace Stepper.Instrument

open Syntax

/-- Statements that are printed with a semicolon at their end. -/
def isTerminated : Kind → Bool
  | .expressionStatement | .lexicalDeclaration | .variableDeclaration | .breakStatement
  | .continueStatement | .throwStatement | .debuggerStatement => true
  | _ => false

/-- Kinds that are printed from their children. -/
def isRebuilt : Kind → Bool
  | .expressionStatement | .lexicalDeclaration | .variableDeclaration | .variableDeclarator
  | .ifStatement | .elseClause | .whileStatement | .doStatement | .forStatement | .forInStatement
  | .breakStatement | .continueStatement | .throwStatement | .tryStatement | .catchClause
  | .finallyClause | .switchStatement | .switchBody | .labeledStatement | .emptyStatement
  | .debuggerStatement | .classDeclaration | .classExpression | .classHeritage | .classBody
  | .fieldDefinition | .classStaticBlock | .parenthesizedExpression | .binaryExpression
  | .unaryExpression | .updateExpression | .assignmentExpression | .augmentedAssignmentExpression
  | .ternaryExpression | .sequenceExpression | .callExpression | .newExpression
  | .memberExpression | .subscriptExpression | .arguments | .array | .object | .pair
  | .spreadElement | .awaitExpression | .templateString | .templateSubstitution
  | .computedPropertyName | .string | .regex | .formalParameters | .arrayPattern | .objectPattern
  | .assignmentPattern | .objectAssignmentPattern | .restPattern | .pairPattern => true
  | _ => false

def placeholder (kind : Kind) : String := "/* Unsupported node type: " ++ kind.name ++ " */"

def pad (indent : Nat) : String := String.ofList (List.replicate (2 * indent) ' ')

def stripEnd (s : String) : String :=
  String.ofList ((s.toList.reverse.dropWhile fun c => Text.isBlank c.toNat).reverse)

/-- The lines of a statement printed as `core`, with its step before and its captures after. -/
def statementLines (marks : Marks) (indent : Nat) (kind : Kind) (core : String) : List String :=
  let core :=
    if isTerminated kind then
      let core := stripEnd core
      if core.endsWith ";" then core else core ++ ";"
    else core
  (marks.step.toList.map fun m => pad indent ++ m.call) ++ [pad indent ++ core] ++
    if marks.after.isEmpty then [] else [pad indent ++ captureCalls marks.after]

/-- Lines in braces, the closing one at `indent`. -/
def braced (indent : Nat) (lines : List String) : String :=
  if lines.isEmpty then "\x7b\x7d"
  else "\x7b\n" ++ "\n".intercalate lines ++ "\n" ++ pad indent ++ "\x7d"

def gap (source : String) (start stop : Nat) : String :=
  if stop ≤ start then "" else piece source start stop

/-- A body that the printing of its parent has to treat: the body of a function. -/
structure FunctionBody where
  id : Nat
  marker : FunctionMarker

mutual
/-- The text of a node. -/
def emit (plan : Plan) (source : String) (indent : Nat) (n : Node) : String :=
  match n with
  | ⟨kind, b, c, d, start, stop, g, h, i, id, cs⟩ =>
    let self : Node := ⟨kind, b, c, d, start, stop, g, h, i, id, cs⟩
    if kind.isComment then ""
    else if isRebuilt kind then rebuild plan source indent self stop none start cs
    else if kind.isFunction then
      match (plan.get self).function, self.child? .body with
      | some f, some body => rebuild plan source indent self stop (some ⟨body.id, f⟩) start cs
      | _, _ => rebuild plan source indent self stop none start cs
    else match kind with
      | .statementBlock =>
        let captures := (plan.get self).atStart
        braced indent ((if captures.isEmpty then []
            else [pad (indent + 1) ++ captureCalls captures])
          ++ lines plan source (indent + 1) 0 cs)
      | .returnStatement =>
        if !(plan.get self).leaves then rebuild plan source indent self stop none start cs
        else match returnedNode? self with
          | none => "return " ++ Hook.exit.name ++ "();"
          | some value =>
            let text := emitFirst plan source indent cs
            let text := if value.kind == .sequenceExpression then "(" ++ text ++ ")" else text
            "return " ++ Hook.exit.name ++ "(" ++ text ++ ");"
      | .switchCase | .switchDefault =>
        let colon := ((cs.find? fun c => c.kind == .token ":").map Node.stop).getD stop
        let header := rebuild plan source indent self colon none start cs
        "\n".intercalate (header :: lines plan source (indent + 1) colon cs)
      | _ => if cs.isEmpty then piece source start stop else placeholder kind
termination_by structural n

/-- The text of the first named node that is no comment. -/
def emitFirst (plan : Plan) (source : String) (indent : Nat) (ns : List Node) : String :=
  match ns with
  | [] => ""
  | n :: ns =>
    if n.named && !n.kind.isComment then emit plan source indent n
    else emitFirst plan source indent ns
termination_by structural ns

/-- The lines of the statements that begin at `from_` or later. -/
def lines (plan : Plan) (source : String) (indent from_ : Nat) (ns : List Node) : List String :=
  match ns with
  | [] => []
  | n :: ns =>
    (if n.named && !n.kind.isComment && from_ ≤ n.start then
      statementLines (plan.get n) indent n.kind (emit plan source indent n)
    else []) ++ lines plan source indent from_ ns
termination_by structural ns

/-- The text of `parent` from `cursor` to `stop`, its children printed and the text between them
kept. -/
def rebuild (plan : Plan) (source : String) (indent : Nat) (parent : Node) (stop : Nat)
    (special : Option FunctionBody) (cursor : Nat) (ns : List Node) : String :=
  match ns with
  | [] => gap source cursor stop
  | n :: ns =>
    if stop ≤ n.start then gap source cursor stop
    else
      let text :=
        match (match special with
          | some f => if f.id == n.id then some f.marker else none
          | none => none) with
        | some f =>
          if n.kind == .statementBlock then emitFunctionBody plan source indent f n
          else "\x7b " ++ f.enterCall ++ " return " ++ Hook.exit.name ++ "(" ++
            emit plan source indent n ++ "); \x7d"
        | none =>
          if !holdsStatements parent.kind && n.kind != .statementBlock &&
              inStatementPosition (some parent) n then
            let captures := (plan.get n).atStart
            braced indent ((if captures.isEmpty then []
                else [pad (indent + 1) ++ captureCalls captures])
              ++ statementLines (plan.get n) (indent + 1) n.kind (emit plan source (indent + 1) n))
          else emit plan source indent n
      gap source cursor n.start ++ text ++
        rebuild plan source indent parent stop special n.stop ns
termination_by structural ns

/-- A function's body in braces, entered before its statements and left after them. -/
def emitFunctionBody (plan : Plan) (source : String) (indent : Nat) (f : FunctionMarker)
    (n : Node) : String :=
  match n with
  | ⟨kind, b, c, d, start, stop, g, h, i, id, cs⟩ =>
    let captures := (plan.get ⟨kind, b, c, d, start, stop, g, h, i, id, cs⟩).atStart
    let inner := pad (indent + 1)
    braced indent ((if captures.isEmpty then [] else [inner ++ captureCalls captures])
      ++ [inner ++ f.enterCall] ++ lines plan source (indent + 1) 0 cs ++ [inner ++ exitCall])
termination_by structural n
end

/-- A program printed anew with its calls. -/
def regenerated (plan : Plan) (p : Program) : String :=
  "\n".intercalate (lines plan p.source 0 0 p.root.children) ++ "\n"

end Stepper.Instrument
