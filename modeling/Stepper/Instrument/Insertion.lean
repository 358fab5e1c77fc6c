import Stepper.Instrument.Marks

/-!
Decorating a program by inserting calls into its text. All insertions are collected as data, put in
order, and spliced into the source, which stays as it is between them; no line end is ever inserted.
-/
namespace Stepper.Instrument

open Syntax

/-- Text to place at a byte offset. At one offset what closes a construct goes before what opens
one; inner constructs close first and open last. -/
structure Insertion where
  offset : Nat
  text : String
  closing : Bool
  depth : Nat
  deriving DecidableEq, Repr

namespace Insertion

/-- The order of insertions; those that agree stay in the order they were collected. -/
def le (a b : Insertion) : Bool :=
  if a.offset != b.offset then a.offset < b.offset
  else if a.closing != b.closing then a.closing
  else if a.closing then b.depth ≤ a.depth
  else a.depth ≤ b.depth

/-- Whether an insertion falls between two characters of the source. -/
def isBetween (source : String) (i : Insertion) : Bool := String.Pos.Raw.isValid source ⟨i.offset⟩

end Insertion

/-- The source from byte `i` to byte `j`. -/
def piece (source : String) (i j : Nat) : String := String.Pos.Raw.extract source ⟨i⟩ ⟨j⟩

/-- The source from `cursor` on with ordered insertions in place. -/
def splice (source : String) (cursor : Nat) : List Insertion → String
  | [] => piece source cursor source.utf8ByteSize
  | i :: is => piece source cursor i.offset ++ i.text ++ splice source i.offset is

def opening (offset : Nat) (text : String) (depth : Nat) : Insertion := ⟨offset, text, false, depth⟩
def closing (offset : Nat) (text : String) (depth : Nat) : Insertion := ⟨offset, text, true, depth⟩

/-- A step and the captures around a statement. -/
def stepInsertions (parent : Option Node) (depth : Nat) (marks : Marks) (m : StepMarker)
    (n : Node) : List Insertion :=
  let slot := depth * 4
  let after := if marks.after.isEmpty then "" else "; " ++ captureCalls marks.after
  if needsBraces parent then
    let first := if marks.atStart.isEmpty then "" else captureCalls marks.atStart ++ " "
    [opening n.start ("\x7b " ++ first ++ m.call ++ " ") slot,
      closing n.stop (after ++ " \x7d") slot]
  else
    opening n.start (m.call ++ " ") (slot + 2) ::
      if marks.after.isEmpty then [] else [closing n.stop after (slot + 2)]

/-- The captures at the start of a loop's body that is no step. -/
def bodyInsertions (depth : Nat) (names : List String) (n : Node) : List Insertion :=
  let slot := depth * 4
  if n.kind == .statementBlock then [opening (n.start + 1) (" " ++ captureCalls names) (slot + 1)]
  else [opening n.start ("\x7b " ++ captureCalls names ++ " \x7d ") (slot + 1)]

/-- Entry into and exit from a function. -/
def functionInsertions (depth : Nat) (f : FunctionMarker) (n : Node) : List Insertion :=
  match n.child? .body with
  | none => []
  | some body =>
    let slot := (depth + 1) * 4
    if body.kind == .statementBlock then
      [opening (body.start + 1) (" " ++ f.enterCall) (slot + 1),
        closing (body.stop - 1) ("; " ++ exitCall ++ " ") (slot + 1)]
    else
      [opening body.start ("\x7b " ++ f.enterCall ++ " return " ++ Hook.exit.name ++ "(") slot,
        closing body.stop "); \x7d" slot]

/-- A return reports the value it gives back. -/
def returnInsertions (depth : Nat) (n : Node) : List Insertion :=
  let slot := depth * 4 + 3
  match returnedNode? n with
  | none =>
    match n.children with
    | [] => []
    | word :: _ => [opening word.stop (" " ++ Hook.exit.name ++ "()") slot]
  | some value =>
    let sequence := value.kind == .sequenceExpression
    [opening value.start (Hook.exit.name ++ if sequence then "((" else "(") slot,
      closing value.stop (if sequence then "))" else ")") slot]

def nodeInsertions (plan : Plan) (parent : Option Node) (depth : Nat) (n : Node) : List Insertion :=
  let marks := plan.get n
  (match marks.step with
    | some m => stepInsertions parent depth marks m n
    | none => if marks.atStart.isEmpty then [] else bodyInsertions depth marks.atStart n) ++
  (match marks.function with
    | some f => functionInsertions depth f n
    | none => []) ++
  (if marks.leaves then returnInsertions depth n else [])

mutual
/-- All insertions for a tree, in preorder. -/
def collect (plan : Plan) (parent : Option Node) (depth : Nat) (n : Node) : List Insertion :=
  match n with
  | ⟨a, b, c, d, e, f, g, h, i, j, cs⟩ =>
    let self : Node := ⟨a, b, c, d, e, f, g, h, i, j, cs⟩
    nodeInsertions plan parent depth self ++ collectAll plan self (depth + 1) cs
termination_by structural n

def collectAll (plan : Plan) (parent : Node) (depth : Nat) (ns : List Node) : List Insertion :=
  match ns with
  | [] => []
  | n :: ns => collect plan (some parent) depth n ++ collectAll plan parent depth ns
termination_by structural ns
end

/-- The insertions of a program in the order of the text. -/
def insertions (plan : Plan) (p : Program) : List Insertion :=
  (collect plan none 0 p.root).mergeSort Insertion.le

/-- The text of a program with its calls spliced in. -/
def spliced (plan : Plan) (p : Program) : String := splice p.source 0 (insertions plan p)

end Stepper.Instrument
