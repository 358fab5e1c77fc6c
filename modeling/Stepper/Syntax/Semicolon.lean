import Stepper.Syntax.Token

/-!
Where a statement may end without a semicolon: at the end of the source, before a closing brace, and
at a line end unless the next line goes on with the statement. Whether a comment on the same line
counts as a line end depends on whether an operator could follow.
-/
namespace Stepper.Syntax

/-- What a look across comments finds. -/
inductive Crossing where
  /-- A slash that begins no comment. -/
  | slash
  /-- A block comment on one line. -/
  | sameLine (rest : List Char)
  /-- Everything up to the next token. -/
  | crossed (rest : List Char)

/-- White space at which a line may be broken; the next-line control does not count. -/
def isSpace (c : Char) : Bool :=
  Text.isWhiteSpace c.toNat && !([0x85, 0xa0, 0x2007, 0x202f].contains c.toNat)

/-- The text after a block comment, and whether a line ends inside it. A comment that is not closed
takes all. -/
def afterBlock (newLine : Bool) : List Char → List Char × Bool × Bool
  | '*' :: '/' :: cs => (cs, newLine, true)
  | c :: cs => afterBlock (newLine || isNewLine c) cs
  | [] => ([], newLine, false)

/-- Skips blanks and comments. Unless `through`, a block comment not followed by a slash ends the
look; `newLine` says whether a block comment so far had a line end inside. -/
def crossComments (through : Bool) : Nat → Bool → List Char → Crossing
  | 0, _, cs => .crossed cs
  | fuel + 1, newLine, cs =>
    match cs.dropWhile isSpace with
    | '/' :: '/' :: r => crossComments through fuel newLine (r.dropWhile fun c => !isNewLine c)
    | '/' :: '*' :: r =>
      match afterBlock newLine r with
      | (r, newLine, true) =>
        if through || r.head? == some '/' then crossComments through fuel newLine r
        else if newLine then .crossed r else .sameLine r
      | (r, newLine, false) => crossComments through fuel newLine r
    | '/' :: _ => .slash
    | r => .crossed r

def startsNextStatement : List Char → Bool
  | [] => true
  | c :: r =>
    if "`,:;*%><=[(?^|&/".toList.contains c then false
    else if c == '.' then r.head?.any isDigit
    else if c == '+' then r.head? == some '+'
    else if c == '-' then r.head? == some '-'
    else if c == '!' then r.head? != some '='
    else if c == 'i' then
      match r with
      | 'n' :: r =>
        if !(r.head?.any Char.isAlpha) then false
        else if "stanceof".toList.isPrefixOf r then (r.drop 8).head?.any Char.isAlpha
        else true
      | _ => true
    else true

/-- Whether a statement ends at a character `c` with the text `r` after it; `goesOn` looks on behind
a blank. -/
def endsAt (goesOn : List Char → Bool) (fuel : Nat) (c : Char) (r : List Char) : Bool :=
  if c == '\x7d' then true
  else if isNewLine c then
    match crossComments true (fuel + 1) false r with
    | .slash => false
    | .sameLine r => startsNextStatement r
    | .crossed r => startsNextStatement r
  else if isSpace c then goesOn r
  else false

/-- Whether a statement ends at the front of `cs`. With `commentEnds`, a comment that runs to the
end of its line ends the statement before it. Behind a comment only what follows it on the line is
looked at. -/
def endsHere (commentEnds : Bool) : Nat → List Char → Bool
  | 0, _ => false
  | fuel + 1, cs =>
    let afterComment : List Char → Bool
      | [] => false
      | c :: r => endsAt (endsHere commentEnds fuel) fuel c r
    match cs with
    | [] => true
    | '/' :: _ =>
      match crossComments false (fuel + 1) false cs with
      | .slash => false
      | .sameLine r => afterComment r
      | .crossed r =>
        if commentEnds && r.head? != some ',' && r.head? != some '=' then true
        else afterComment r
    | c :: r => endsAt (endsHere commentEnds fuel) fuel c r

/-- The offset where a statement that has been read up to `p` may end without a semicolon. Comments
that do not end it are passed one by one. -/
def impliedEnd? (commentEnds : Bool) : Nat → Place → Option Nat
  | 0, _ => none
  | fuel + 1, p =>
    if endsHere commentEnds (fuel + 1) p.rest then some p.pos
    else
      let q := p.drop (spanLength isBlankChar p.rest)
      match commentLength q.rest with
      | some n => impliedEnd? commentEnds fuel (q.drop n)
      | none => none

end Stepper.Syntax
