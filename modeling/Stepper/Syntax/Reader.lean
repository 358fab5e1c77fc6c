import Stepper.Syntax.Pattern
import Stepper.Syntax.Semicolon

/-!
Reading a source token by token. A reader takes nodes off the front of the source or fails; a failed
reader leaves no trace, so alternatives are tried in turn. The rules of the grammar refer to each
other through a parameter (`Grammar`), which the driver of the grammar supplies.
-/
namespace Stepper.Syntax

structure Cursor where
  /-- More than the characters of the source: a bound on what can be read. -/
  size : Nat
  /-- The place after the last token taken. -/
  last : Place
  /-- Comments passed so far, latest first. -/
  comments : List Node
  look : Token
  /-- Comments between the last token and the one ahead, latest first. -/
  between : List Node
  /-- Whether a line end could still close what has just been read. -/
  closable : Bool := false
  deriving Inhabited

namespace Cursor

def atPlace (size : Nat) (p : Place) (comments : List Node) : Cursor :=
  let (q, between) := skipBetween size p []
  { size, last := p, comments, look := Token.read q, between }

/-- Goes on reading at a place, with the comments before the token ahead passed. -/
def goTo (c : Cursor) (p : Place) : Cursor := atPlace c.size p (c.between ++ c.comments)

/-- Takes the token ahead. -/
def advance (c : Cursor) : Cursor := c.goTo c.look.stop

/-- Stands at a place where what follows is not read as tokens. -/
def standAt (c : Cursor) (p : Place) : Cursor :=
  { c with last := p, comments := c.between ++ c.comments, between := [] }

/-- Goes on reading tokens at the place where the cursor stands. -/
def resume (c : Cursor) : Cursor := c.goTo c.last

/-- The offset where a statement may end here without a semicolon. -/
def impliedEnd (c : Cursor) (commentEnds : Bool) : Option Nat :=
  impliedEnd? commentEnds c.size c.last

/-- Whether only plain white space lies between the token ahead and the token or comment before. -/
def plainGap (c : Cursor) : Bool :=
  let start := (c.between.head?.map Node.stop).getD c.last.pos
  let rec go (pos : Nat) : List Char → Bool
    | [] => true
    | ch :: cs =>
      c.look.place.pos ≤ pos || (pos < start || isSpace ch) && go (pos + ch.utf8Size) cs
  go c.last.pos c.last.rest

/-- Passes comments from `<!--` or `-->` to the end of a line. They are read only where no operator
can stand and no statement can end. -/
def passHtmlComments : Nat → Cursor → Cursor
  | 0, c => c
  | fuel + 1, c =>
    let p := c.look.place
    if ("<!--".toList.isPrefixOf p.rest || "-->".toList.isPrefixOf p.rest)
        && !c.closable && c.plainGap then
      let n := spanLength (fun ch => !isNewLine ch) p.rest
      let (q, between) := skipBetween c.size (p.drop n) (p.leaf .htmlComment n true :: c.between)
      passHtmlComments fuel { c with look := Token.read q, between }
    else c

/-- Takes the word ahead for a name, if it is reserved but begins no statement. -/
def freeWord (c : Cursor) : Cursor :=
  if c.look.kind == .word && wordsInside.contains c.look.text then
    { c with look := { c.look with kind := .name } }
  else c

/-- Takes the brace ahead for one that opens an object, where a block could stand as well. -/
def atObject (c : Cursor) : Cursor :=
  if c.look.isMark "\x7b" then { c with look := { c.look with kind := .brace } } else c

end Cursor

/-- A reader that fails tells the offset of the token it could not take. -/
abbrev Read := StateT Cursor (Except Nat)

/-- The rules that others refer to. Where `ends` is set, a statement may end after the expression
without a semicolon. -/
inductive Rule where
  | statement
  /-- An expression whose binary operators bind at least as tightly as `level`. -/
  | expression (ends : Bool) (level : Nat)
  /-- One expression, or several with commas between. -/
  | expressions (ends : Bool)
  | object
  /-- A block in braces; `orObject` where an object could stand as well. -/
  | block (operatorMayFollow orObject : Bool)

abbrev Grammar := Rule → Read Node

/-- A node over its children. -/
def Node.over (kind : Kind) (children : List Node) : Node :=
  { kind, children
    start := (children.head?.map Node.start).getD 0
    stop := (children.getLast?.map Node.stop).getD 0 }

/-- A node that ends at a given offset or at the end of its last child, whichever is later. -/
def Node.overTo (kind : Kind) (children : List Node) (stop : Nat) : Node :=
  let n := Node.over kind children
  { n with stop := max n.stop stop }

namespace Read

def look : Read Token := do return (← get).look

/-- The token ahead, where an operand or a statement may begin. -/
def lookFresh : Read Token := do
  modify fun c => c.passHtmlComments c.size
  look

def fail {α : Type} : Read α := fun c => .error c.look.place.pos

/-- Takes the token ahead as it is written. -/
def take : Read Node := do
  let t ← look
  modify Cursor.advance
  return t.node

def takeAs (kind : Kind) : Read Node := do
  let t ← look
  modify Cursor.advance
  return t.leaf kind

def isMark (s : String) : Read Bool := do return (← look).isMark s
def isWord (s : String) : Read Bool := do return (← look).isWord s

def mark (s : String) : Read Node := do
  if ← isMark s then take else fail

def word (s : String) : Read Node := do
  if ← isWord s then take else fail

/-- A mark, if it is ahead. -/
def mark? (s : String) : Read (List Node) := do
  if ← isMark s then return [← take] else return []

def word? (s : String) : Read (List Node) := do
  if ← isWord s then return [← take] else return []

/-- The first reader, or the second where the first fails. Where both fail, the later offset
counts. -/
def orElse {α : Type} (a b : Read α) : Read α := fun c =>
  match a c with
  | .ok r => .ok r
  | .error i => match b c with
    | .ok r => .ok r
    | .error j => .error (max i j)

/-- The first reader; but where `goesOn` tells that the token after it goes on with what the second
one reads, the second where it succeeds. -/
def unlessFollowed {α : Type} (goesOn : Token → Bool) (a b : Read α) : Read α := fun c =>
  match a c with
  | .ok (r, after) =>
    if goesOn after.look then
      match b c with
      | .ok s => .ok s
      | .error _ => .ok (r, after)
    else .ok (r, after)
  | .error i => .error i

/-- The token after the one ahead. -/
def lookBeyond : Read Token := do return (← get).advance.look

/-- The offset where a statement may end here without a semicolon. -/
def impliedEnd (commentEnds : Bool) : Read (Option Nat) := do
  return (← get).impliedEnd commentEnds

/-- Whether the statement ends here without a semicolon, in an expression that may end one. -/
def endsAfter (ends : Bool) : Read Bool := do
  if ends then return (← impliedEnd false).isSome else return false

/-- Moves to an offset between the last token and the one ahead. -/
def moveTo (offset : Nat) : Read Unit :=
  modify fun c => { c with last := Place.seek offset c.last.pos c.last.rest }

/-- The end of a statement: an implied one, or a semicolon. -/
def semicolon (operatorMayFollow : Bool) : Read (List Node × Nat) := do
  match ← impliedEnd (!operatorMayFollow) with
  | some offset => moveTo offset; return ([], offset)
  | none => let s ← mark ";"; return ([s], s.stop)

def identifier : Read Node := do
  if (← look).isIdentifier then takeAs .identifier else fail

/-- A mark, where longer marks that begin with it do not count. -/
def exactly (s : String) : Read Node := do
  let p := (← look).place
  if s.toList.isPrefixOf p.rest then
    modify (·.goTo (p.drop s.length))
    return p.leaf (.token s) s.length false
  else fail

def isExactly (s : String) : Read Bool := do return s.toList.isPrefixOf (← look).place.rest

/-- Repeats a reader that may have nothing to take, at most `fuel` times. -/
def many (p : Read (Option Node)) : Nat → Read (List Node)
  | 0 => fail
  | fuel + 1 => do
    match ← p with
    | some n => return n :: (← many p fuel)
    | none => return []

/-- An upper bound on the number of tokens ahead. -/
def bound : Read Nat := do return (← get).size

end Read

/-- Marks a node as a part of its parent. -/
def asPart (f : Field) (r : Read Node) : Read Node := do return (← r).asField f

end Stepper.Syntax
