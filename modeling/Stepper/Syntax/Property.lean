import Stepper.Syntax.Callable

/-!
What objects and classes hold: pairs, methods, fields, static blocks, and the decorators and words
before them.
-/
namespace Stepper.Syntax.Property

open Read Literal Callable

variable (g : Grammar)

/-- The name of a property. -/
def propertyName : Read Node := do
  let t ← look
  match t.kind with
  | .word | .name => takeAs .propertyIdentifier
  | .privateName => takeAs .privatePropertyIdentifier
  | .number => takeAs .number
  | .mark =>
    if isQuote t then string
    else if t.text == "[" then
      let opening ← take
      let e ← g (.expression false 0)
      let close ← mark "]"
      return .over .computedPropertyName [opening, e, close]
    else fail
  | _ => fail

/-- Whether a property name can begin with the token. -/
def beginsName (t : Token) : Bool :=
  match t.kind with
  | .word | .name | .privateName | .number => true
  | .mark => ["\"", "'", "["].contains t.text
  | _ => false

/-- Names after a name, with dots between. -/
def dotted : Nat → Node → Read Node
  | 0, _ => fail
  | fuel + 1, n => do
    if ← isMark "." then
      let dot ← take
      let name ← asPart .property (do return { (← identifier) with kind := .propertyIdentifier })
      dotted fuel (.over .memberExpression [n.asField .object, dot, name])
    else return n

/-- A name after `@`, perhaps called. -/
def decorator : Read Node := do
  let sign ← mark "@"
  let n ← dotted (← bound) (← identifier)
  if ← isMark "(" then
    let args ← asPart .arguments (arguments g)
    return .over .decorator [sign, .over .callExpression [n.asField .function, args]]
  else return .over .decorator [sign, n]

def decorators : Read (List Node) := do
  many (do if ← isMark "@" then return some (← decorator g) else return none) (← bound)

/-- One of some words before the name of a method. Such a word is itself the name where no name
follows and, where a field `mayEnd` after it, at the end of its line. -/
def modifier? (words : List String) (star mayEnd : Bool) : Read (List Node) := do
  let t ← look
  let c := (← get).advance
  let goesOn := beginsName c.look || (star && c.look.isMark "*")
  if t.kind == .word && words.contains t.text && goesOn
      && !(mayEnd && (c.impliedEnd true).isSome) then
    return [← take]
  else return []

/-- `static`. With `get` at the end of its line it makes one word. -/
def staticWord (inClass : Bool) : Read (List Node) := do
  let p := (← look).place
  match staticGetLength p.rest with
  | 0 => modifier? ["static"] true inClass
  | n =>
    modify (·.goTo (p.drop n))
    return [p.leaf (.token "static get") n false]

/-- The words before the name of a method: `static`, then `async`, then `get`, `set` or a star.
Also whether a field may follow them. -/
def modifiers (inClass : Bool) : Read (List Node × Bool) := do
  let still ← staticWord inClass
  let wait ← modifier? ["async"] true inClass
  let role ← (do
    if ← isMark "*" then return [← take]
    else modifier? ["get", "set"] false (inClass && wait.isEmpty))
  return (still ++ wait ++ role, wait.isEmpty && role.isEmpty)

def methodTail (lead : List Node) (name : Node) (operatorMayFollow : Bool) : Read Node := do
  let ps ← asPart .parameters (formalParameters g)
  let body ← functionBody g operatorMayFollow
  return .over .methodDefinition (lead ++ [name.asField .name, ps, body])

/-- Words that begin an expression though they are not reserved. -/
def isOperandWord (t : Token) : Bool :=
  t.kind == .word && ["await", "yield", "undefined"].contains t.text

/-- `=` and a value after a target; only a pattern may have it. -/
def targetTail (left : Node) : Read Node := do
  let eq ← mark "="
  let right ← asPart .right (g (.expression false 0))
  return .over .objectAssignmentPattern [left.asField .left, eq, right]

def namedElement : Read Node := do
  let marks ← decorators g
  let (lead, _) ← modifiers false
  let lead := marks ++ lead
  let t ← look
  let name ← propertyName g
  if ← isMark "(" then methodTail g lead name false
  else if !lead.isEmpty then fail
  else if ← isMark ":" then
    let colon ← take
    let value ← asPart .value (elementOrSpread g)
    return .over .pair [name.asField .key, colon, value]
  else if name.kind == .propertyIdentifier then
    if ← isMark "=" then targetTail g (t.leaf .shorthandPropertyIdentifierPattern)
    else return t.leaf .shorthandPropertyIdentifier
  else fail

def objectElement : Read Node := do
  let target : Read Node := do targetTail g (← destructuring g)
  if ← isMark "..." then spread g
  else if ← isMark "\x7b" then target
  else if ← isMark "[" then orElse (namedElement g) target
  else namedElement g

/-- The first element of an object where a block could stand as well. There words that begin a
statement or an expression are no names, a name that can end a statement does, and so does an
assignment at the end; a name before a comma begins an expression. -/
def firstElement : Read Node := do
  modify fun c => (c.passHtmlComments c.size).freeWord
  let t ← look
  let endsThere := ((← get).advance.impliedEnd false).isSome
  if t.kind == .word && !t.isReference || isOperandWord t || t.isReference && endsThere then fail
  else
    let e ← objectElement g
    let last ← isMark "\x7d"
    if e.kind == .shorthandPropertyIdentifier && !last
        || e.kind == .objectAssignmentPattern && last then fail
    else return e

def object : Read Node := do
  let orBlock := (← look).kind == .brace
  let opening ← (do if orBlock then take else mark "\x7b")
  let first ← (do
    let t ← look
    if !orBlock || t.isMark "\x7d" || t.isMark "," then return []
    else
      let e ← firstElement g
      if ← isMark "\x7d" then return [e] else return [e, ← mark ","])
  let items ← listTail (objectElement g) "\x7d" true (← bound)
  return .over .object (opening :: first ++ items)

def staticBlock : Read Node := do
  let s ← word "static"
  let body ← functionBody g false
  return .over .classStaticBlock [s, body]

/-- A method or a field; a field is followed by its end. -/
def memberTail : Read (List Node) := do
  let marks ← decorators g
  let (lead, mayEnd) ← modifiers true
  let lead := marks ++ lead
  let name ← propertyName g
  let ended := mayEnd && (← impliedEnd true).isSome
  if !ended && (← isMark "(") then
    let m ← methodTail g lead name false
    return m.asField .member :: (← mark? ";")
  else if mayEnd then
    let value ← (do if !ended && (← isMark "=") then initializer g true 0 else return [])
    let field := Node.over .fieldDefinition (lead ++ [name.asField .property] ++ value)
    let (stop, _) ← semicolon (!value.isEmpty)
    return field.asField .member :: stop
  else fail

/-- One part of a class body. -/
def classElement : Read (List Node) := do
  let t ← look
  let c := (← get).advance
  if t.isMark ";" then return [← take]
  else if t.isWord "static" && c.look.isMark "\x7b" && (c.impliedEnd true).isNone then
    return [← asPart .member (staticBlock g)]
  else memberTail g

def classElements : Nat → Read (List Node)
  | 0 => fail
  | fuel + 1 => do
    if (← lookFresh).isMark "\x7d" then return [← take]
    let e ← classElement g
    return e ++ (← classElements fuel)

def classBody : Read Node := do
  let opening ← mark "\x7b"
  let items ← classElements g (← bound)
  return .over .classBody (opening :: items)

/-- A class after its decorators. Where `declares` is set a name makes it a declaration. -/
def classTail (declares : Bool) (lead : List Node) : Read Node := do
  let c ← word "class"
  let name ← name?
  let heritage ← (do
    if ← isWord "extends" then
      let e ← take
      let parent ← g (.expression false 0)
      return [Node.over .classHeritage [e, parent]]
    else return [])
  let body ← asPart .body (classBody g)
  let kind : Kind := if declares && !name.isEmpty then .classDeclaration else .classExpression
  return .over kind (lead ++ [c] ++ name ++ heritage ++ [body])

end Stepper.Syntax.Property
