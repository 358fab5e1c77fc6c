import Stepper.Syntax.Literal

/-!
Elements in angle brackets: tags with attributes, and between an opening and a closing tag plain
text, character references, further elements and expressions in braces. The text between tags is
not read as tokens.
-/
namespace Stepper.Syntax.Element

open Read Literal

variable (g : Grammar)

/-- The length of the text up to the next mark, and whether it holds anything: blanks that follow a
line end are nothing. -/
def textExtent (afterLine : Bool) : List Char → Nat × Bool
  | [] => (0, false)
  | c :: cs =>
    if "<>\x7b\x7d&".toList.contains c then (0, false)
    else
      let afterLine := c == '\n' || afterLine && isSpace c
      let (n, found) := textExtent afterLine cs
      (n + 1, found || !afterLine)

def isLetter (c : Char) : Bool := ('a' ≤ c && c ≤ 'z') || ('A' ≤ c && c ≤ 'Z')

/-- The length of a character reference at the front, from `&` to `;`. -/
def referenceLength : List Char → Option Nat
  | '&' :: cs =>
    let body (lead most : Nat) (p : Char → Bool) : Option Nat :=
      let n := spanLength p (cs.drop lead)
      if 0 < n && n ≤ most && (cs.drop (lead + n)).head? == some ';' then some (lead + n + 2)
      else none
    match cs with
    | '#' :: 'x' :: _ | '#' :: 'X' :: _ => body 2 6 isHexDigit
    | '#' :: _ => body 1 5 isDigit
    | _ => body 0 30 isLetter
  | _ => none

/-- The length of the characters of an attribute up to its closing quote or a character reference.
A lone `&` takes the character after it along. -/
def attributeChars (quote : Char) : List Char → Nat
  | '&' :: c :: cs => if c == '#' || isLetter c then 0 else 2 + attributeChars quote cs
  | '&' :: [] => 0
  | c :: cs => if c == quote then 0 else 1 + attributeChars quote cs
  | [] => 0

/-- The pieces of an attribute up to its closing quote, and the place before that quote. -/
def attributePieces (quote : Char) : Nat → Place → Option (List Node × Place)
  | 0, _ => none
  | fuel + 1, p => do
    if p.rest.head? == some quote then return ([], p)
    let (kind, n) ← (match attributeChars quote p.rest with
      | 0 => (referenceLength p.rest).map fun n => (Kind.characterReference, n)
      | n => some (Kind.stringFragment, n))
    let (ns, q) ← attributePieces quote fuel (p.drop n)
    return (p.leaf kind n true :: ns, q)

def attributeString : Read Node := do
  let t ← look
  match attributePieces (t.text.toList.headD '"') (← bound) t.stop with
  | none => fail
  | some (pieces, p) =>
    modify (·.goTo (p.drop 1))
    return .over .string (t.node :: pieces ++ [p.leaf (.token t.text) 1 false])

/-- The length of a name with a hyphen, zero if there is none. -/
def hyphenatedLength : List Char → Nat
  | c :: cs =>
    let begins (c : Char) : Bool := isLetter c || c == '_' || c == '$'
    let isPart (c : Char) : Bool := begins c || isDigit c
    let n := spanLength isPart cs
    if begins c && (cs.drop n).head? == some '-' then
      1 + n + spanLength (fun c => isPart c || c == '-') (cs.drop n)
    else 0
  | [] => 0

/-- A name, perhaps with hyphens. -/
def hyphenated (kind : Kind) : Read Node := do
  let p := (← look).place
  match hyphenatedLength p.rest with
  | 0 => return { (← identifier) with kind }
  | n =>
    modify (·.goTo (p.drop n))
    return p.leaf kind n true

/-- Names after a name, with dots between. -/
def dotted : Nat → Node → Read Node
  | 0, _ => fail
  | fuel + 1, n => do
    if ← isExactly "." then
      let dot ← exactly "."
      let name ← asPart .property (do return { (← identifier) with kind := .propertyIdentifier })
      dotted fuel (.over .memberExpression [n.asField .object, dot, name])
    else return n

/-- A name, or one in a namespace; alone it is of kind `kind`. -/
def qualified (kind : Kind) : Read Node := do
  let plain := hyphenatedLength (← look).place.rest == 0
  let n ← hyphenated .identifier
  if ← isExactly ":" then
    let colon ← exactly ":"
    let local_ ← hyphenated .identifier
    return .over .jsxNamespaceName [n, colon, local_]
  else if kind == .identifier && plain then dotted (← bound) n
  else return { n with kind }

/-- An expression in braces, or braces around nothing. What follows is left to be read. -/
def braces : Read Node := do
  let opening ← mark "\x7b"
  let inner ← (do
    if ← isMark "\x7d" then return []
    else if ← isMark "..." then return [← spread g]
    else return [← g (.expressions false)])
  let t ← look
  if t.isMark "\x7d" then
    modify (·.standAt t.stop)
    return .over .jsxExpression (opening :: inner ++ [t.node])
  else fail

/-- Takes the last mark of a tag; what follows is left to be read. -/
def lastMark (s : String) : Read Node := do
  let p := (← look).place
  if s.toList.isPrefixOf p.rest then
    modify (·.standAt (p.drop s.length))
    return p.leaf (.token s) s.length false
  else fail

def closingTag : Read Node := do
  let opening ← exactly "</"
  let name ← (do
    if ← isExactly ">" then return []
    else return [← asPart .name (qualified .identifier)])
  let close ← lastMark ">"
  return .over .jsxClosingElement (opening :: name ++ [close])

mutual
/-- An element. What follows its last mark is left to be read. -/
def element : Nat → Read Node
  | 0 => fail
  | fuel + 1 => do
    let opening ← exactly "<"
    let name ← (do
      if ← isExactly ">" then return []
      else return [← asPart .name (qualified .identifier)])
    let attributes ← (do if name.isEmpty then return [] else attributes fuel)
    if !name.isEmpty && (← isExactly "/>") then
      let close ← lastMark "/>"
      return .over .jsxSelfClosingElement (opening :: name ++ attributes ++ [close])
    else
      let close ← lastMark ">"
      let tag := Node.over .jsxOpeningElement (opening :: name ++ attributes ++ [close])
      let inside ← content fuel
      return .over .jsxElement (tag :: inside ++ [← closingTag])

/-- Attributes up to the end of a tag. -/
def attributes : Nat → Read (List Node)
  | 0 => fail
  | fuel + 1 => do
    if (← isExactly ">") || (← isExactly "/>") then return []
    let part ← (do
      if ← isMark "\x7b" then
        let e ← braces g
        modify Cursor.resume
        return e
      else
        let name ← qualified .propertyIdentifier
        if ← isExactly "=" then
          let eq ← exactly "="
          let value ← attributeValue fuel
          return .over .jsxAttribute [name, eq, value]
        else return .over .jsxAttribute [name])
    return part :: (← attributes fuel)

def attributeValue : Nat → Read Node
  | 0 => fail
  | fuel + 1 => do
    let t ← look
    if isQuote t then attributeString
    else
      let value ← (do if t.isMark "\x7b" then braces g else element fuel)
      modify Cursor.resume
      return value

/-- What stands between two tags. -/
def content : Nat → Read (List Node)
  | 0 => fail
  | fuel + 1 => do
    let p := (← get).last
    match textExtent false p.rest with
    | (n, true) =>
      modify (·.standAt (p.drop n))
      return p.leaf .jsxText n true :: (← content fuel)
    | _ =>
      modify Cursor.resume
      let p := (← look).place
      if ← isExactly "</" then return []
      else if ← isExactly "<" then
        let e ← element fuel
        return e :: (← content fuel)
      else if ← isMark "\x7b" then
        let e ← braces g
        return e :: (← content fuel)
      else match referenceLength p.rest with
        | none => fail
        | some n =>
          modify (·.standAt (p.drop n))
          return p.leaf .characterReference n true :: (← content fuel)
end

/-- An element among the tokens of a source. -/
def elementOperand : Read Node := do
  let e ← element g (← bound)
  modify Cursor.resume
  return e

end Stepper.Syntax.Element
