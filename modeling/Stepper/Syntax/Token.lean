import Stepper.Syntax.Node
import Stepper.Text.Blank

/-!
Tokens of a source. The text still to be read is a list of characters with the byte offset of its
first one; a token is cut off its front. Blanks and comments stand between tokens. A slash is read
as a mark here: only the grammar knows where a regular expression can begin.
-/
namespace Stepper.Syntax

/-- What is left of a source, and the byte offset where it begins. -/
structure Place where
  pos : Nat
  rest : List Char
  deriving Inhabited

def utf8Length (cs : List Char) : Nat := cs.foldl (fun n c => n + c.utf8Size) 0

namespace Place

/-- The place `n` characters further on. -/
def drop (p : Place) (n : Nat) : Place := ⟨p.pos + utf8Length (p.rest.take n), p.rest.drop n⟩

/-- The first place that is not before an offset, `cs` being the text at `pos`. -/
def seek (offset pos : Nat) : List Char → Place
  | [] => ⟨pos, []⟩
  | c :: cs => if pos < offset then seek offset (pos + c.utf8Size) cs else ⟨pos, c :: cs⟩

/-- A leaf over the next `n` characters. -/
def leaf (p : Place) (kind : Kind) (n : Nat) (named : Bool) : Node :=
  { kind, named, start := p.pos, stop := p.pos + utf8Length (p.rest.take n) }

end Place

/-- The longest beginning whose characters satisfy `p`. -/
def spanLength (p : Char → Bool) (cs : List Char) : Nat := (cs.takeWhile p).length

def isLineEnd (c : Char) : Bool := c == '\n' || c == '\r' || c.toNat == 0x2028 || c.toNat == 0x2029

/-- A line end, where a carriage return by itself is none. -/
def isNewLine (c : Char) : Bool := c == '\n' || c.toNat == 0x2028 || c.toNat == 0x2029

def isBlankChar (c : Char) : Bool := Text.isSourceBlank c.toNat

/-- The length of a block comment's text after `/*`, its closing mark included. -/
def blockCommentTail : List Char → Option Nat
  | '*' :: '/' :: _ => some 2
  | _ :: cs => (blockCommentTail cs).map (· + 1)
  | [] => none

/-- The length of a comment at the front. -/
def commentLength : List Char → Option Nat
  | '/' :: '/' :: cs => some (2 + spanLength (fun c => !isLineEnd c) cs)
  | '/' :: '*' :: cs => (blockCommentTail cs).map (· + 2)
  | _ => none

/-- Skips blanks and comments; the comments come latest first, before those of `found`. -/
def skipBetween : Nat → Place → List Node → Place × List Node
  | 0, p, found => (p, found)
  | fuel + 1, p, found =>
    let p := p.drop (spanLength isBlankChar p.rest)
    match commentLength p.rest with
    | some n => skipBetween fuel (p.drop n) (p.leaf .comment n true :: found)
    | none => (p, found)

def isHexDigit (c : Char) : Bool :=
  ('0' ≤ c && c ≤ '9') || ('a' ≤ c && c ≤ 'f') || ('A' ≤ c && c ≤ 'F')

def isWordPart (c : Char) : Bool :=
  0x20 < c.toNat && !isBlankChar c &&
    !(":;`\"'@#.,|^&<=>+-*/\\%?!~()[]\x7b\x7d".toList.contains c)

def isDigit (c : Char) : Bool := '0' ≤ c && c ≤ '9'

def isOctalDigit (c : Char) : Bool := '0' ≤ c && c ≤ '7'

/-- The length of `\uXXXX` or `\u{X…}` at the front, zero if there is none. -/
def wordEscapeLength : List Char → Nat
  | '\\' :: 'u' :: '\x7b' :: cs =>
    let n := spanLength isHexDigit cs
    if 0 < n && (cs.drop n).head? == some '\x7d' then n + 4 else 0
  | '\\' :: 'u' :: a :: b :: c :: d :: _ =>
    if isHexDigit a && isHexDigit b && isHexDigit c && isHexDigit d then 6 else 0
  | _ => 0

def wordTailLength : Nat → List Char → Nat
  | 0, _ => 0
  | fuel + 1, cs =>
    match cs with
    | [] => 0
    | c :: r =>
      if isWordPart c then 1 + wordTailLength fuel r
      else match wordEscapeLength cs with
        | 0 => 0
        | n => n + wordTailLength fuel (cs.drop n)

/-- The length of a word at the front; words do not begin with a digit. -/
def wordLength (cs : List Char) : Nat :=
  match cs with
  | [] => 0
  | c :: _ => if isDigit c then 0 else wordTailLength cs.length cs

/-- The length of digits with single underscores between them. -/
def digitsLength (p : Char → Bool) : List Char → Nat
  | [] => 0
  | c :: cs =>
    if p c then 1 + match cs with
      | '_' :: d :: r => if p d then 1 + digitsLength p (d :: r) else 0
      | r => digitsLength p r
    else 0

/-- The length of an exponent part, zero if there is none. -/
def exponentLength : List Char → Nat
  | c :: cs =>
    if c == 'e' || c == 'E' then
      let sign := match cs with
        | '+' :: _ | '-' :: _ => 1
        | _ => 0
      match digitsLength isDigit (cs.drop sign) with
      | 0 => 0
      | n => 1 + sign + n
    else 0
  | [] => 0

/-- The length of the integer part that a fraction or exponent may follow: a lone zero, or digits of
which at most the first is a zero. -/
def integerPartLength : List Char → Nat
  | '0' :: d :: cs =>
    if '1' ≤ d && d ≤ '9' then
      1 + digitsLength isDigit (d :: cs)
    else 1
  | '0' :: [] => 1
  | cs => digitsLength isDigit cs

/-- A radix mark of either case and its digits. -/
def markedLength (mark : Char) (p : Char → Bool) : List Char → Nat
  | '0' :: c :: cs =>
    if c.toLower == mark then
      match digitsLength p cs with
      | 0 => 0
      | n => 2 + n
    else 0
  | _ => 0

def withBigMark (cs : List Char) (n : Nat) : Nat :=
  if 0 < n && (cs.drop n).head? == some 'n' then n + 1 else n

/-- The length of a number at the front, zero if there is none. -/
def numberLength (cs : List Char) : Nat :=
  let marked := [markedLength 'x' isHexDigit cs,
      markedLength 'b' (fun c => c == '0' || c == '1') cs,
    markedLength 'o' isOctalDigit cs]
  let plain := digitsLength isDigit cs
  let whole := integerPartLength cs
  let fractional :=
    if whole == 0 then 0
    else match cs.drop whole with
      | '.' :: r =>
        let f := digitsLength isDigit r
        whole + 1 + f + exponentLength (r.drop f)
      | r => match exponentLength r with
        | 0 => 0
        | e => whole + e
  let pointed := match cs with
    | '.' :: r => match digitsLength isDigit r with
      | 0 => 0
      | f => 1 + f + exponentLength (r.drop f)
    | _ => 0
  ((marked ++ [plain]).map (withBigMark cs) ++ [fractional, pointed]).foldl max 0

def marks4 : List String := [">>>="]
def marks3 : List String := ["...", "===", "!==", ">>>", "<<=", ">>=", "**=", "&&=", "||=", "??="]
def marks2 : List String :=
  ["=>", "==", "!=", "<=", ">=", "&&", "||", "??", "?.", "++", "--", "+=", "-=", "*=", "/=", "%=",
   "&=", "|=", "^=", "<<", ">>", "**"]

/-- The length of the longest mark at the front. `?.` before a digit is a lone `?`. -/
def markLength (cs : List Char) : Nat :=
  let begins (s : String) : Bool := s.toList.isPrefixOf cs
  if marks4.any begins then 4
  else if marks3.any begins then 3
  else match cs with
    | '?' :: '.' :: d :: _ => if isDigit d then 1 else 2
    | _ => if marks2.any begins then 2 else 1

inductive TokenKind where
  | word
  /-- A word that is a name whatever it says. -/
  | name
  | number | privateName | mark
  /-- A brace that opens an object where a block could stand as well. -/
  | brace
  | finish
  deriving DecidableEq, Repr, Inhabited

structure Token where
  kind : TokenKind
  text : String
  /-- Where the token begins. -/
  place : Place
  length : Nat
  deriving Inhabited

namespace Token

def stop (t : Token) : Place := t.place.drop t.length

def read (p : Place) : Token :=
  match p.rest with
  | [] => ⟨.finish, "", p, 0⟩
  | '#' :: cs =>
    match wordLength cs with
    | 0 => ⟨.mark, "#", p, 1⟩
    | n => ⟨.privateName, String.ofList ('#' :: cs.take n), p, n + 1⟩
  | cs =>
    match numberLength cs with
    | 0 =>
      match wordLength cs with
      | 0 => let n := markLength cs; ⟨.mark, String.ofList (cs.take n), p, n⟩
      | n => ⟨.word, String.ofList (cs.take n), p, n⟩
    | n => ⟨.number, String.ofList (cs.take n), p, n⟩

def isMark (t : Token) (s : String) : Bool := t.kind == .mark && t.text == s
def isWord (t : Token) (s : String) : Bool := t.kind == .word && t.text == s

/-- The token as a leaf that is kept as written. -/
def node (t : Token) : Node := t.place.leaf (.token t.text) t.length false

def leaf (t : Token) (kind : Kind) : Node := t.place.leaf kind t.length true

end Token

/-- Words that are never identifiers. -/
def reservedWords : List String :=
  ["break", "case", "catch", "class", "const", "continue", "debugger", "default", "delete", "do",
   "else", "export", "extends", "false", "finally", "for", "function", "if", "import", "in",
   "instanceof", "new", "null", "return", "super", "switch", "this", "throw", "true", "try",
   "typeof", "var", "void", "while", "with"]

/-- Reserved words that begin neither a statement nor an expression. -/
def wordsInside : List String :=
  ["case", "catch", "default", "else", "extends", "finally", "in", "instanceof"]

def Token.isIdentifier (t : Token) : Bool :=
  t.kind == .name || t.kind == .word && !reservedWords.contains t.text

/-- Whether the token may stand for a value by its name. Nothing can be declared as `export`, yet
the word is read as a name. -/
def Token.isReference (t : Token) : Bool := t.isIdentifier || t.isWord "export"

/-- The length of `static get` at the front with the line end after it, zero if it is not there. -/
def staticGetLength (cs : List Char) : Nat :=
  let isWhite (c : Char) : Bool := Text.isWhiteSpace c.toNat
  let gap := spanLength isWhite (cs.drop 6)
  let rest := cs.drop (6 + gap)
  let blanks := (rest.drop 3).takeWhile isWhite
  if "static".toList.isPrefixOf cs && 0 < gap && "get".toList.isPrefixOf rest
      && blanks.contains '\n' then
    9 + gap + (blanks.reverse.dropWhile (· != '\n')).length
  else 0

/-- The length of an escape sequence at the front, its backslash included. -/
def escapeLength : List Char → Option Nat
  | '\\' :: 'x' :: a :: b :: _ => if isHexDigit a && isHexDigit b then some 4 else none
  | '\\' :: 'x' :: _ => none
  | '\\' :: 'u' :: cs =>
    match wordEscapeLength ('\\' :: 'u' :: cs) with
    | 0 => none
    | n => some n
  | '\\' :: c :: cs =>
    if isOctalDigit c then some (1 + min 3 (spanLength isOctalDigit (c :: cs)))
    else if c == '\r' || c == '?' then
      match cs with
      | d :: _ => if d == '\n' || d.toNat == 0x2028 || d.toNat == 0x2029 then some 3 else some 2
      | [] => some 2
    else some 2
  | _ => none

/-- The pieces of a string up to its closing quote, and the place before that quote. -/
def stringPieces (quote : Char) : Nat → Place → Option (List Node × Place)
  | 0, _ => none
  | fuel + 1, p =>
    match p.rest with
    | [] => none
    | c :: _ =>
      if c == quote then some ([], p)
      else if c == '\\' then do
        let n ← escapeLength p.rest
        let (ns, q) ← stringPieces quote fuel (p.drop n)
        some (p.leaf .escapeSequence n true :: ns, q)
      else
        match spanLength (fun c => c != quote && c != '\\' && c != '\r' && c != '\n') p.rest with
        | 0 => none
        | n => do
          let (ns, q) ← stringPieces quote fuel (p.drop n)
          some (p.leaf .stringFragment n true :: ns, q)

/-- The length of plain characters of a template. -/
def templateChars : List Char → Nat
  | [] => 0
  | '`' :: _ => 0
  | '\\' :: _ => 0
  | '$' :: '\x7b' :: _ => 0
  | _ :: cs => 1 + templateChars cs

/-- The length of a class in brackets, after its opening bracket. -/
def regexClassLength : List Char → Option Nat
  | ']' :: _ => some 1
  | '\\' :: c :: cs => if c == '\n' then none else (regexClassLength cs).map (· + 2)
  | '\n' :: _ => none
  | ['\\'] => none
  | _ :: cs => (regexClassLength cs).map (· + 1)
  | [] => none

/-- The length of the pattern of a regular expression, up to its closing slash. -/
def regexPatternLength : Nat → List Char → Option Nat
  | 0, _ => none
  | fuel + 1, cs =>
    match cs with
    | '/' :: _ => some 0
    | '[' :: r => do
      let n ← regexClassLength r
      (regexPatternLength fuel (r.drop n)).map (· + n + 1)
    | '\\' :: c :: r => if c == '\n' then none else (regexPatternLength fuel r).map (· + 2)
    | '\\' :: [] => none
    | '\n' :: _ => none
    | _ :: r => (regexPatternLength fuel r).map (· + 1)
    | [] => none

end Stepper.Syntax
