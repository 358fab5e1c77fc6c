import Stepper.Syntax.Statement

/-!
From a source to its tree: comments are put where they stand, nodes are numbered in preorder and get
their rows and columns.
-/
namespace Stepper.Syntax

/-- A program and the text it was read from. -/
structure Program where
  source : String
  root : Node
  deriving Inhabited

namespace Node

mutual
/-- Puts comments, in order, between the children of the innermost node they stand in. -/
def withComments (n : Node) (cs : List Node) : Node :=
  match n with
  | ⟨a, b, c, d, e, f, g, h, i, j, children⟩ =>
    ⟨a, b, c, d, e, f, g, h, i, j, weave children cs⟩
termination_by structural n

def weave (ns : List Node) (cs : List Node) : List Node :=
  match ns with
  | [] => cs
  | n :: ns =>
    let before := cs.takeWhile fun c => c.start < n.start
    let cs := cs.dropWhile fun c => c.start < n.start
    let inside := cs.takeWhile fun c => c.start < n.stop
    let cs := cs.dropWhile fun c => c.start < n.stop
    before ++ n.withComments inside :: weave ns cs
termination_by structural ns
end

mutual
/-- Numbers a tree in preorder from `k` and sets its points; also the next free number. -/
def place (point : Nat → Point) (n : Node) (k : Nat) : Node × Nat :=
  match n with
  | ⟨kind, named, missing, hasError, start, stop, _, _, field, _, children⟩ =>
    let (cs, next) := placeAll point children (k + 1)
    (⟨kind, named, missing, hasError, start, stop, point start, point stop, field, k, cs⟩, next)
termination_by structural n

def placeAll (point : Nat → Point) (ns : List Node) (k : Nat) : List Node × Nat :=
  match ns with
  | [] => ([], k)
  | n :: ns =>
    let (n, k) := n.place point k
    let (ns, k) := placeAll point ns k
    (n :: ns, k)
termination_by structural ns
end

mutual
/-- Whether a part of an object may only be a target's: a name with `=` and a value, or a rest after
a key. -/
def isTargetOnly (n : Node) : Bool :=
  n.kind == .objectAssignmentPattern ||
    n.kind == .pair && n.children.any fun v => v.kind == .spreadElement

/-- No object has a part that only a target may have. -/
def isSettled (n : Node) : Bool :=
  match n with
  | ⟨kind, _, _, _, _, _, _, _, _, _, children⟩ =>
    !(kind == .object && children.any isTargetOnly) &&
      areSettled children
termination_by structural n

def areSettled (ns : List Node) : Bool :=
  match ns with
  | [] => true
  | n :: ns => n.isSettled && areSettled ns
termination_by structural ns
end

end Node

/-- The offsets where the lines of a source begin. -/
def lineStarts (source : String) : Array Nat :=
  (source.toList.foldl (fun (starts, pos) c =>
    let next := pos + c.utf8Size
    (if c == '\n' then starts.push next else starts, next)) (#[0], 0)).1

/-- The greatest index in `[lo, hi)` whose line does not begin after `offset`. -/
def lineOf (starts : Array Nat) (offset : Nat) : Nat → Nat → Nat → Nat
  | 0, lo, _ => lo
  | fuel + 1, lo, hi =>
    if lo + 1 < hi then
      let mid := (lo + hi) / 2
      if starts.getD mid 0 ≤ offset then lineOf starts offset fuel mid hi
      else lineOf starts offset fuel lo mid
    else lo

def pointOf (starts : Array Nat) (offset : Nat) : Point :=
  let row := lineOf starts offset (starts.size + 1) 0 starts.size
  ⟨row, offset - starts.getD row 0⟩

/-- The bound on nested rules: each takes a character after a few steps. -/
def nestingBound (source : String) : Nat := 8 * (source.utf8ByteSize + 4)

def readProgram (fuel : Nat) : Read (List Node) := do
  let t ← Read.lookFresh
  let bang ← (do
    match t.place.rest with
    | '#' :: '!' :: cs =>
      let n := 2 + spanLength (· != '\n') cs
      modify (·.goTo (t.place.drop n))
      return [t.place.leaf .hashBangLine n true]
    | _ => return [])
  let body ← Statement.statementsUntil (Statement.grammar fuel)
      (fun t => t.kind == .finish) (← Read.bound)
  return bang ++ body

/-- The tree of a source. Where the source is not well formed, the offset at which reading ended. -/
def parse (source : String) : Except Nat Program :=
  match readProgram (nestingBound source)
      (Cursor.atPlace (source.length + 3) ⟨0, source.toList⟩ []) with
  | .error offset => .error offset
  | .ok (body, c) =>
    let comments := (c.between ++ c.comments).reverse
    let size := source.utf8ByteSize
    let root : Node := { kind := .program, children := Node.weave body comments }
    let root := { root with
      start := (root.children.head?.map Node.start).getD size, stop := size }
    if root.isSettled then
      let starts := lineStarts source
      .ok ⟨source, (root.place (pointOf starts) 0).1⟩
    else .error size

def parse? (source : String) : Option Program := (parse source).toOption

end Stepper.Syntax
