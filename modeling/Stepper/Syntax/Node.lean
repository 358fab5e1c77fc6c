import Stepper.Syntax.Kind

/-!
Syntax trees. A node knows its kind, the bytes and the points it spans, and which part of its parent
it is; the text of a node is the span of the source it covers. Comments are nodes too and can stand
anywhere.
-/
namespace Stepper.Syntax

/-- A place in a source: rows from zero, columns in bytes. -/
structure Point where
  row : Nat
  column : Nat
  deriving DecidableEq, Repr, Inhabited

structure Node where
  kind : Kind
  named : Bool := true
  missing : Bool := false
  hasError : Bool := false
  start : Nat := 0
  stop : Nat := 0
  startPoint : Point := ⟨0, 0⟩
  stopPoint : Point := ⟨0, 0⟩
  field : Option Field := none
  /-- The place of the node in the preorder of its tree. -/
  id : Nat := 0
  children : List Node := []
  deriving Inhabited

namespace Node

/-- The first child that is the given part. -/
def child? (n : Node) (f : Field) : Option Node :=
  n.children.find? fun c => c.field == some f

/-- The named children that are no comments. -/
def namedChildren (n : Node) : List Node :=
  n.children.filter fun c => c.named && !c.kind.isComment

/-- The source text a node covers. -/
def text (source : String) (n : Node) : String :=
  String.Pos.Raw.extract source ⟨n.start⟩ ⟨n.stop⟩

def startLine (n : Node) : Nat := n.startPoint.row + 1
def stopLine (n : Node) : Nat := n.stopPoint.row + 1

def isToken (n : Node) (s : String) : Bool := !n.named && n.kind == .token s

/-- Whether a word or mark stands among the children. -/
def hasToken (n : Node) (s : String) : Bool := n.children.any (·.isToken s)

/-- A part of its parent. -/
def asField (n : Node) (f : Field) : Node := { n with field := some f }

mutual
/-- The number of nodes. -/
def size (n : Node) : Nat :=
  match n with
  | ⟨_, _, _, _, _, _, _, _, _, _, cs⟩ => sizes cs + 1
termination_by structural n

/-- The number of nodes of several trees. -/
def sizes (ns : List Node) : Nat :=
  match ns with
  | [] => 0
  | n :: ns => n.size + sizes ns
termination_by structural ns
end

@[simp] theorem sizes_nil : sizes [] = 0 := rfl
@[simp] theorem sizes_cons (n : Node) (ns : List Node) : sizes (n :: ns) = n.size + sizes ns := rfl

theorem size_eq (n : Node) : n.size = sizes n.children + 1 := by
  cases n; rfl

@[simp] theorem sizes_append (ms ns : List Node) : sizes (ms ++ ns) = sizes ms + sizes ns := by
  induction ms with
  | nil => simp
  | cons m ms ih => simp [ih]; omega

end Node
end Stepper.Syntax
