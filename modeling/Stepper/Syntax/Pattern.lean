import Stepper.Syntax.Node

/-!
Targets of assignments and parameters. A target is first read as an expression, because only the
token after it tells what it is; `toPattern?` gives the target it stands for, if any.
-/
namespace Stepper.Syntax.Node

/-- What may stand after `...` in a target. -/
def isRestTarget (n : Node) : Bool :=
  match n.kind with
  | .identifier | .undefinedWord | .memberExpression | .subscriptExpression | .arrayPattern
  | .objectPattern => true
  | _ => false

mutual
/-- The target that an expression stands for. -/
def toPattern? (n : Node) : Option Node :=
  match n with
  | ⟨kind, named, missing, hasError, start, stop, startPoint, stopPoint, field, id, children⟩ =>
    let with_ (kind : Kind) (children : List Node) : Node :=
      ⟨kind, named, missing, hasError, start, stop, startPoint, stopPoint, field, id, children⟩
    match kind with
    | .identifier | .undefinedWord | .memberExpression | .subscriptExpression | .arrayPattern
    | .objectPattern | .assignmentPattern | .restPattern | .objectAssignmentPattern
    | .shorthandPropertyIdentifierPattern => some (with_ kind children)
    | .token s => some (with_ (.token s) children)
    | .array => (toPatterns? children).map (with_ .arrayPattern)
    | .object => (toPatterns? children).map (with_ .objectPattern)
    | .shorthandPropertyIdentifier => some (with_ .shorthandPropertyIdentifierPattern children)
    | .spreadElement => do
      let cs ← toPatterns? children
      if cs.all fun c => !c.named || c.isRestTarget then some (with_ .restPattern cs) else none
    | .assignmentExpression =>
      if children.any fun c => c.field == some .left && c.kind == .parenthesizedExpression then none
      else some (with_ .assignmentPattern children)
    | .pair => do
      let cs ← pairToPattern? children
      some (with_ .pairPattern cs)
    | _ => none
termination_by structural n

def toPatterns? (ns : List Node) : Option (List Node) :=
  match ns with
  | [] => some []
  | n :: ns => do
    let m ← n.toPattern?
    let ms ← toPatterns? ns
    some (m :: ms)
termination_by structural ns

/-- The key of a pair stays as it is; its value becomes a target. -/
def pairToPattern? (ns : List Node) : Option (List Node) :=
  match ns with
  | [] => some []
  | n :: ns => do
    let ms ← pairToPattern? ns
    if n.field == some .value then
      let m ← n.toPattern?
      some (m :: ms)
    else some (n :: ms)
termination_by structural ns
end

/-- What may stand left of `=`. -/
def toAssignable? (n : Node) : Option Node :=
  match n.kind with
  | .parenthesizedExpression | .identifier | .undefinedWord | .memberExpression
  | .subscriptExpression | .arrayPattern | .objectPattern => some n
  | .array | .object => n.toPattern?
  | _ => none

/-- What may stand left of an operator with `=`. -/
def isUpdatable (n : Node) : Bool :=
  match n.kind with
  | .parenthesizedExpression | .identifier | .memberExpression | .subscriptExpression => true
  | _ => false

/-- What a parameter or a slot of a target may be. -/
def toParameter? (n : Node) : Option Node :=
  match n.toPattern? with
  | some m =>
    match m.kind with
    | .token _ => none
    | .shorthandPropertyIdentifierPattern | .objectAssignmentPattern => none
    | _ => some m
  | none => none

end Stepper.Syntax.Node
