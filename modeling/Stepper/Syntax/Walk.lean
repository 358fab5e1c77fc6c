import Stepper.Syntax.Node

/-!
Walks over a tree. `walk` keeps the nodes still to be visited in a list; `preorder` is the same
order said by recursion. `walkScope` visits what belongs to one function: nested functions and
classes are met but not entered.
-/
namespace Stepper.Syntax.Node

/-- The walk over several trees, one after the other. -/
def walkAll (pending : List Node) : List Node :=
  match pending with
  | [] => []
  | n :: rest => n :: walkAll (n.children ++ rest)
termination_by sizes pending
decreasing_by
  simp [size_eq]

/-- The node and all its descendants, each before its children. -/
def walk (n : Node) : List Node := walkAll [n]

def walkNamed (n : Node) : List Node := n.walk.filter (·.named)

/-- Where the walk over a scope turns back. -/
def closesScope (n : Node) : Bool := n.kind.isFunction || n.kind.isClass

def walkScopeAll (pending : List Node) : List Node :=
  match pending with
  | [] => []
  | n :: rest =>
    if n.closesScope then n :: walkScopeAll rest
    else n :: walkScopeAll (n.children ++ rest)
termination_by sizes pending
decreasing_by
  · simp [size_eq]
  · simp [size_eq]

/-- The descendants of a node that belong to its scope. -/
def walkScope (n : Node) : List Node := walkScopeAll n.children

mutual
def preorder (n : Node) : List Node :=
  match n with
  | ⟨a, b, c, d, e, f, g, h, i, j, cs⟩ => ⟨a, b, c, d, e, f, g, h, i, j, cs⟩ :: preorders cs
termination_by structural n

def preorders (ns : List Node) : List Node :=
  match ns with
  | [] => []
  | n :: ns => n.preorder ++ preorders ns
termination_by structural ns
end

mutual
/-- What is inside the parentheses around an expression. -/
def unwrapParens (n : Node) : Node :=
  match n with
  | ⟨kind, b, c, d, e, f, g, h, i, j, cs⟩ =>
    let self : Node := ⟨kind, b, c, d, e, f, g, h, i, j, cs⟩
    if kind == .parenthesizedExpression then unwrapFirst self cs else self
termination_by structural n

def unwrapFirst (outer : Node) (ns : List Node) : Node :=
  match ns with
  | [] => outer
  | n :: ns => if n.named && !n.kind.isComment then n.unwrapParens else unwrapFirst outer ns
termination_by structural ns
end

/-- The expression of a clause in a loop head; none where the clause is left out. -/
def unwrapClause (n : Option Node) : Option Node :=
  match n with
  | none => none
  | some n =>
    match n.kind with
    | .emptyStatement => none
    | .token ";" => none
    | .expressionStatement => n.namedChildren.head?
    | _ => some n

end Stepper.Syntax.Node
