import Stepper.Syntax.Node

/-!
Names that targets bind and declarations declare, and the parts of a tree that are found by the
words in it.
-/
namespace Stepper.Syntax.Node

mutual
/-- The names a target binds, in the order of the text. -/
def boundNames (source : String) (n : Node) : List String :=
  match n with
  | ⟨kind, b, c, d, start, stop, g, h, i, j, cs⟩ =>
    match kind with
    | .identifier | .shorthandPropertyIdentifierPattern =>
      [Node.text source ⟨kind, b, c, d, start, stop, g, h, i, j, cs⟩]
    | .assignmentPattern | .objectAssignmentPattern => boundNamesAt source .left cs
    | .pairPattern => boundNamesAt source .value cs
    | .restPattern | .arrayPattern | .objectPattern => boundNamesAll source cs
    | _ => []
termination_by structural n

/-- The names of the first of several nodes that is the given part. -/
def boundNamesAt (source : String) (f : Field) (ns : List Node) : List String :=
  match ns with
  | [] => []
  | n :: ns => if n.field == some f then n.boundNames source else boundNamesAt source f ns
termination_by structural ns

/-- The names of all named nodes, comments left out. -/
def boundNamesAll (source : String) (ns : List Node) : List String :=
  match ns with
  | [] => []
  | n :: ns =>
    (if n.named && !n.kind.isComment then n.boundNames source else []) ++ boundNamesAll source ns
termination_by structural ns
end

/-- The names a target binds, if there is a target. -/
def boundNames? (source : String) (n : Option Node) : List String :=
  match n with
  | some n => n.boundNames source
  | none => []

/-- The names that a declaration declares. -/
def declaredNames (source : String) (n : Node) : List String :=
  n.children.flatMap fun c =>
    if c.kind == .variableDeclarator then boundNames? source (c.child? .name) else []

/-- The word a declaration begins with. -/
def declarationWord (source : String) (n : Node) : String :=
  match n.child? .kind with
  | some k => k.text source
  | none => match n.children with
    | [] => "var"
    | c :: _ => c.text source

/-- The parameters of a function. -/
def parameterNodes (n : Node) : List Node :=
  match n.child? .parameters with
  | some ps => ps.namedChildren
  | none => (n.child? .parameter).toList

/-- The operator of an operation. -/
def operatorText (source : String) (n : Node) : String :=
  match n.child? .operator with
  | some o => o.text source
  | none => match n.children.find? fun c => !c.named with
    | some c => c.text source
    | none => ""

end Stepper.Syntax.Node
