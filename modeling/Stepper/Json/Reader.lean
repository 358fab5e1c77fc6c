import Stepper.Json.Tree
import Stepper.Number.Read

/-!
Reading JSON. The first complaint about a text is reported with its place; where a value is missing,
that is the place where it should begin. Of equal keys of an object the last value counts.
-/
namespace Stepper.Json

inductive Complaint where
  | value | propertyName | colon | comma | extra | byteOrderMark
  | unterminated | control | escape | unicodeEscape
  deriving DecidableEq, Repr

def Complaint.message : Complaint → String
  | .value => "Expecting value"
  | .propertyName => "Expecting property name enclosed in double quotes"
  | .colon => "Expecting ':' delimiter"
  | .comma => "Expecting ',' delimiter"
  | .extra => "Extra data"
  | .byteOrderMark => "Unexpected UTF-8 BOM (decode using utf-8-sig)"
  | .unterminated => "Unterminated string starting at"
  | .control => "Invalid control character at"
  | .escape => "Invalid \\escape"
  | .unicodeEscape => "Invalid \\uXXXX escape"

inductive Failure where
  | complaint (c : Complaint) (place : Nat)
  /-- A word for a number that JSON does not have, by its first character. -/
  | constant (first : Nat)
  | tooManyDigits (n : Nat)
  | tooDeep
  deriving DecidableEq, Repr

/-- The rest of a text and the place where it begins. -/
structure Cursor where
  rest : Text
  place : Nat
  deriving DecidableEq, Repr

namespace Cursor

def drop (c : Cursor) (n : Nat) : Cursor := ⟨c.rest.drop n, c.place + n⟩

def fail {α : Type} (c : Cursor) (what : Complaint) : Except Failure α :=
  .error (.complaint what c.place)

def isBlank (c : Nat) : Bool := c == 0x20 || c == 0x09 || c == 0x0a || c == 0x0d

def skipBlanks (c : Cursor) : Cursor := c.drop (c.rest.takeWhile isBlank).length

end Cursor

/-- The escapes of one letter. -/
def escaped? (c : Nat) : Option Nat :=
  if c = 0x22 ∨ c = 0x5c ∨ c = 0x2f then some c
  else if c = 0x62 then some 0x08
  else if c = 0x66 then some 0x0c
  else if c = 0x6e then some 0x0a
  else if c = 0x72 then some 0x0d
  else if c = 0x74 then some 0x09
  else none

def hexDigit? (c : Nat) : Option Nat :=
  match Number.charDigit? c with
  | some d => if d < 16 then some d else none
  | none => none

/-- The value of four hexadecimal digits. -/
def hexFour? (t : Text) : Option Nat :=
  match t with
  | a :: b :: c :: d :: _ => do
    let ds ← [a, b, c, d].mapM hexDigit?
    return Number.ofDigits 16 ds
  | _ => none

/-- The four digits of an escape, behind which something has to follow. The complaint is about the
`u`. -/
def readHexFour (c : Cursor) : Except Failure Nat :=
  let complaint := Failure.complaint .unicodeEscape (c.place - 1)
  if c.rest.length ≤ 4 then .error complaint
  else match hexFour? c.rest with
    | some n => .ok n
    | none => .error complaint

def isHigh (c : Nat) : Bool := 0xd800 ≤ c && c ≤ 0xdbff
def isLow (c : Nat) : Bool := 0xdc00 ≤ c && c ≤ 0xdfff

/-- A code point from behind `\u`; two escapes that are a pair of surrogates give one. -/
def readUnicode (c : Cursor) : Except Failure (Nat × Cursor) := do
  let first ← readHexFour c
  let c := c.drop 4
  match c.rest with
  | 0x5c :: 0x75 :: more =>
    if isHigh first && 4 < more.length then
      let second ← readHexFour (c.drop 2)
      if isLow second then
        return (0x10000 + (first - 0xd800) * 0x400 + (second - 0xdc00), c.drop 6)
      else return (first, c)
    else return (first, c)
  | _ => return (first, c)

/-- The rest of a text whose opening quote stands at `start`; `acc` holds what was read, latest
first. -/
def readText (start : Nat) : Nat → Cursor → Text → Except Failure (Text × Cursor)
  | 0, _, _ => .error (.complaint .unterminated start)
  | fuel + 1, c, acc =>
    match c.rest with
    | [] => .error (.complaint .unterminated start)
    | 0x22 :: _ => .ok (acc.reverse, c.drop 1)
    | 0x5c :: d :: _ =>
      if d = 0x75 then do
        let (p, c) ← readUnicode (c.drop 2)
        readText start fuel c (p :: acc)
      else match escaped? d with
        | some p => readText start fuel (c.drop 2) (p :: acc)
        | none => c.fail .escape
    | [0x5c] => .error (.complaint .unterminated start)
    | d :: _ => if d ≤ 0x1f then c.fail .control else readText start fuel (c.drop 1) (d :: acc)

def isDigit (c : Nat) : Bool := 0x30 ≤ c && c ≤ 0x39

/-- The digits before a point: one zero, or digits that do not begin with one. -/
def wholeDigits (t : Text) : Text :=
  match t with
  | 0x30 :: _ => [0x30]
  | t => t.takeWhile isDigit

/-- A point with digits behind it, or nothing. -/
def fractionPart (t : Text) : Text :=
  match t with
  | 0x2e :: t => match t.takeWhile isDigit with
    | [] => []
    | ds => 0x2e :: ds
  | _ => []

/-- An exponent with its letter and sign, or nothing. -/
def exponentPart (t : Text) : Text :=
  match t with
  | c :: t =>
    if c == 0x65 || c == 0x45 then
      let sign := (t.take 1).filter fun d => d == 0x2b || d == 0x2d
      match (t.drop sign.length).takeWhile isDigit with
      | [] => []
      | ds => c :: sign ++ ds
    else []
  | [] => []

def readNumber (c : Cursor) : Except Failure (Tree × Cursor) := do
  let (negative, t) := match c.rest with
    | 0x2d :: t => (true, t)
    | t => (false, t)
  let whole := wholeDigits t
  if whole.isEmpty then c.fail .value
  else
    let fraction := fractionPart (t.drop whole.length)
    let exponent := exponentPart (t.drop (whole.length + fraction.length))
    let body := whole ++ fraction ++ exponent
    let c := c.drop (body.length + if negative then 1 else 0)
    if fraction.isEmpty && exponent.isEmpty then
      if Number.maxDigits < whole.length then throw (.tooManyDigits whole.length)
      return (.integer (Binary64.withSign negative
        (Number.ofDigits 10 (whole.map fun d => d - 0x30))), c)
    else
      let x := match Number.takeDecimal body with
        | some (d, _) => d.value
        | none => Binary64.nan
      return (.number (Binary64.negateIf negative x), c)

/-- Words that are values. -/
def word? (t : Text) : Option (Tree × Nat) :=
  if Text.startsWith t "null" then some (.null, 4)
  else if Text.startsWith t "true" then some (.bool true, 4)
  else if Text.startsWith t "false" then some (.bool false, 5)
  else none

/-- Words for numbers that JSON does not have. -/
def isConstant (t : Text) : Bool :=
  Text.startsWith t "NaN" || Text.startsWith t "Infinity" || Text.startsWith t "-Infinity"

/-- Sets a field; a field that is there keeps its place. -/
def setField (fields : List (Text × Tree)) (k : Text) (v : Tree) : List (Text × Tree) :=
  match fields with
  | [] => [(k, v)]
  | (l, w) :: fs => if k == l then (k, v) :: fs else (l, w) :: setField fs k v

mutual
/-- A value; `room` bounds how deep values nest, and every call uses up some fuel. -/
def readValue (fuel room : Nat) (c : Cursor) : Except Failure (Tree × Cursor) :=
  match fuel with
  | 0 => .error .tooDeep
  | fuel + 1 =>
    match c.rest with
    | [] => c.fail .value
    | d :: _ =>
      if d = 0x22 then do
        let (t, c) ← readText c.place (c.rest.length + 1) (c.drop 1) []
        return (.text t, c)
      else if d = 0x7b then
        match room with
        | 0 => .error .tooDeep
        | room + 1 =>
          let c := (c.drop 1).skipBlanks
          if c.rest.head? == some 0x7d then .ok (.object [], c.drop 1)
          else readFields fuel room c []
      else if d = 0x5b then
        match room with
        | 0 => .error .tooDeep
        | room + 1 =>
          let c := (c.drop 1).skipBlanks
          if c.rest.head? == some 0x5d then .ok (.list [], c.drop 1)
          else readElements fuel room c []
      else match word? c.rest with
        | some (v, n) => .ok (v, c.drop n)
        | none => if isConstant c.rest then .error (.constant d) else readNumber c

/-- The fields of an object up to its end. -/
def readFields (fuel room : Nat) (c : Cursor) (fields : List (Text × Tree)) :
    Except Failure (Tree × Cursor) :=
  match fuel with
  | 0 => .error .tooDeep
  | fuel + 1 =>
    if c.rest.head? != some 0x22 then c.fail .propertyName
    else do
      let (k, c) ← readText c.place (c.rest.length + 1) (c.drop 1) []
      let c := c.skipBlanks
      if c.rest.head? != some 0x3a then c.fail .colon
      let (v, c) ← readValue fuel room (c.drop 1).skipBlanks
      let fields := setField fields k v
      let c := c.skipBlanks
      match c.rest with
      | 0x7d :: _ => return (.object fields, c.drop 1)
      | 0x2c :: _ => readFields fuel room (c.drop 1).skipBlanks fields
      | _ => c.fail .comma

/-- The elements of a list up to its end; `acc` holds those that were read, latest first. -/
def readElements (fuel room : Nat) (c : Cursor) (acc : List Tree) :
    Except Failure (Tree × Cursor) :=
  match fuel with
  | 0 => .error .tooDeep
  | fuel + 1 => do
    let (v, c) ← readValue fuel room c
    let c := c.skipBlanks
    match c.rest with
    | 0x5d :: _ => return (.list (v :: acc).reverse, c.drop 1)
    | 0x2c :: _ => readElements fuel room (c.drop 1).skipBlanks (v :: acc)
    | _ => c.fail .comma
end

/-- The value that a whole text stands for. -/
def read (room : Nat) (t : Text) : Except Failure Tree := do
  let start : Cursor := ⟨t, 0⟩
  if t.head? == some 0xfeff then start.fail .byteOrderMark
  let (v, c) ← readValue (2 * t.length + 2) room start.skipBlanks
  let c := c.skipBlanks
  if c.rest.isEmpty then return v else c.fail .extra

end Stepper.Json
