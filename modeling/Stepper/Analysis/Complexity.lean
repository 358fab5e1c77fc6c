import Stepper.Syntax.Names
import Stepper.Syntax.Walk

/-!
Decisions in a program and the complexity they make: one more than the number of branches, loops,
cases, handlers and short circuits below a node.
-/
namespace Stepper.Analysis

open Syntax

def isBranchKind : Kind → Bool
  | .ifStatement | .whileStatement | .forStatement | .doStatement | .forInStatement | .switchCase
  | .ternaryExpression | .catchClause => true
  | _ => false

def isDecision (source : String) (n : Node) : Bool :=
  isBranchKind n.kind ||
    (n.kind == .binaryExpression && ["&&", "||"].contains (n.operatorText source))

/-- The decisions at a node and below it. -/
def decisions (source : String) (n : Node) : Nat := n.walk.countP (isDecision source)

def complexity (source : String) (n : Node) : Nat := 1 + decisions source n

/-- The complexity past which a function should be broken down. -/
def complexityThreshold : Nat := 10

def isTrueLiteral (n : Option Node) : Bool :=
  match n with
  | some n => n.unwrapParens.kind == .trueWord
  | none => false

/-- A loop that no test of its own can end: one without a test, or with a test that is literally
true. -/
def isInfiniteLoop (n : Node) : Bool :=
  match n.kind with
  | .whileStatement => isTrueLiteral (n.child? .condition)
  | .forStatement =>
    match Node.unwrapClause (n.child? .condition) with
    | none => true
    | some t => isTrueLiteral (some t)
  | _ => false

end Stepper.Analysis
