import Stepper.Fault
import Stepper.Syntax.Tree
import Stepper.Syntax.Walk

/-!
The check of a tree that may hold faults: a missing node, or one of kind `error` over text that
makes no sense. The first fault in preorder is reported, at its first row and column. A tree may
come from anywhere, so a node may begin or end inside a character; the check fails where it needs
the text of such a node. Also the places that reports name.
-/
namespace Stepper.Syntax

/-- What is wrong with a source. -/
inductive FaultKind where
  | missing (kind : String)
  | unexpected (token : Text)
  | unexpectedEnd
  | unexpectedToken
  deriving DecidableEq, Repr

structure SyntaxFault where
  what : FaultKind
  line : Nat
  column : Nat
  deriving DecidableEq, Repr

def FaultKind.message : FaultKind → String
  | .missing kind => s!"Expected '{kind}'"
  | .unexpected token => s!"Unexpected token '{Text.toStr token}'"
  | .unexpectedEnd => "Unexpected end of input"
  | .unexpectedToken => "Unexpected token"

def SyntaxFault.text (f : SyntaxFault) : String := s!"{f.what.message} ({f.line}:{f.column})"

namespace Node

mutual
/-- The first leaf below a node. -/
def firstLeaf (n : Node) : Node :=
  match n with
  | ⟨a, b, c, d, e, f, g, h, i, j, cs⟩ => firstLeafOf ⟨a, b, c, d, e, f, g, h, i, j, cs⟩ cs
termination_by structural n

def firstLeafOf (outer : Node) (ns : List Node) : Node :=
  match ns with
  | [] => outer
  | n :: _ => n.firstLeaf
termination_by structural ns
end

/-- The text of a node, if its bytes are those of a text. -/
def text? (source : String) (n : Node) : Option String :=
  String.fromUTF8? (source.toUTF8.extract n.start n.stop)

/-- What an error node complains of: the first twenty characters of its first leaf. -/
def complaint (source : String) (n : Node) : Except Fault FaultKind :=
  match n.firstLeaf.text? source with
  | none => .error .malformedText
  | some t =>
    let token := Text.stripBy Text.isBlank (Text.ofString t)
    .ok (if token.isEmpty then .unexpectedEnd else .unexpected (token.take 20))

def isFault (n : Node) : Bool := n.missing || n.kind == .error

/-- What is wrong with a node that is a fault. -/
def blame (source : String) (n : Node) : Except Fault FaultKind :=
  if n.missing then .ok (.missing n.kind.name) else n.complaint source

/-- The first fault of a tree that is marked as having one. -/
def check (source : String) (root : Node) : Except Fault (Except SyntaxFault Unit) :=
  if !root.hasError then .ok (.ok ())
  else
    match root.walk.find? isFault with
    | some n => (n.blame source).map fun what => .error ⟨what, n.startLine, n.startPoint.column⟩
    | none => .ok (.error ⟨.unexpectedToken, root.startLine, root.startPoint.column⟩)

end Node

/-- A span of a source: lines from one, columns from zero. -/
structure Location where
  startLine : Nat
  startColumn : Nat
  stopLine : Nat
  stopColumn : Nat
  deriving DecidableEq, Repr

namespace Location

def unknown : Location := ⟨0, 0, 0, 0⟩

def isUnknown (l : Location) : Bool := l == unknown

def text (l : Location) : String :=
  if l.isUnknown then "<unknown>"
  else s!"{l.startLine}:{l.startColumn}-{l.stopLine}:{l.stopColumn}"

end Location

def Node.location (n : Node) : Location :=
  ⟨n.startLine, n.startPoint.column, n.stopLine, n.stopPoint.column⟩

end Stepper.Syntax
