import Stepper.Syntax.Check

/-!
What is said of a source that is not well formed. Reading ends at a token that does not fit what
comes before it; the fault is laid to the fewest tokens just before it without which reading gets
further, and to the token itself where that never helps.
-/
namespace Stepper.Syntax

/-- The tokens before an offset, the latest first. -/
def tokensBefore (offset : Nat) : Nat → Place → List Token → List Token
  | 0, _, found => found
  | fuel + 1, p, found =>
    let t := Token.read (skipBetween fuel p []).1
    if t.length == 0 || offset ≤ t.place.pos then found
    else tokensBefore offset fuel t.stop (t :: found)

/-- A source with blanks from one offset up to another. -/
def blankOut (source : String) (i j : Nat) : String :=
  String.Pos.Raw.extract source 0 ⟨i⟩ ++ "".pushn ' ' (j - i) ++
    String.Pos.Raw.extract source ⟨j⟩ source.rawEndPos

/-- Whether reading gets beyond an offset. -/
def readsBeyond (source : String) (offset : Nat) : Bool :=
  match parse source with
  | .ok _ => true
  | .error i => offset < i

/-- The first of the tokens to which a fault at an offset is laid. -/
def misplaced? (source : String) (offset : Nat) (tokens : List Token) : Option Token :=
  tokens.find? fun t => readsBeyond (blankOut source t.place.pos offset) offset

/-- The token to which it is laid that reading does not get beyond an offset. -/
def blamed (source : String) (offset : Nat) : Token :=
  let fuel := source.length + 3
  let start : Place := ⟨0, source.toList⟩
  let before := tokensBefore offset fuel start []
  let rest := (before.head?.map Token.stop).getD start
  (misplaced? source offset before).getD (Token.read (skipBetween fuel rest []).1)

/-- The tree of a source that cannot be read beyond an offset: an error over the token to which that
is laid. -/
def brokenTree (source : String) (offset : Nat) : Node :=
  let t := blamed source offset
  let leaf := t.place.leaf .error t.length true
  let p := pointOf (lineStarts source) leaf.start
  { kind := .program, hasError := true, stop := source.utf8ByteSize
    children := [{ leaf with hasError := true, startPoint := p, stopPoint := p }] }

/-- The tree of any source. -/
def treeOf (source : String) : Program :=
  match parse source with
  | .ok p => p
  | .error offset => ⟨source, brokenTree source offset⟩

/-- The program that a source holds, or what is wrong with the source. -/
def read (source : String) : Except SyntaxFault Program :=
  let p := treeOf source
  match p.root.check source with
  | .ok (.ok ()) => .ok p
  | .ok (.error f) => .error f
  | .error _ => .error ⟨.unexpectedToken, p.root.startLine, p.root.startPoint.column⟩

end Stepper.Syntax
