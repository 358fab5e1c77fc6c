import Stepper.Syntax.Element
import Stepper.Syntax.Property

/-!
Expressions. Operands are read first, then operators by how tightly they bind. The target of an
assignment is read as an expression and turned into a target when the token after it shows what it
is.
-/
namespace Stepper.Syntax.Expression

open Read Literal Callable Property

variable (g : Grammar)

/-! ### Member chains -/

def memberName : Read Node := do
  let t ← lookFresh
  match t.kind with
  | .word => takeAs .propertyIdentifier
  | .privateName => takeAs .privatePropertyIdentifier
  | _ => fail

/-- Whether an operand that others may be linked to stands for itself. A template and an optional
call are not linked to what an operator made. -/
def isPrimary (n : Node) : Bool :=
  match n.kind with
  | .newExpression | .updateExpression | .yieldExpression | .jsxElement | .jsxSelfClosingElement =>
    false
  | _ => true

/-- One link of a chain on `e` that is no call in parentheses: a name, an index or a template. -/
def link? (e : Node) : Read (Option Node) := do
  let t ← look
  if t.isMark "." then
    let dot ← take
    let name ← asPart .property memberName
    return some (.over .memberExpression [e.asField .object, dot, name])
  else if t.isMark "[" then
    let opening ← take
    let index ← asPart .index (g (.expressions false))
    let close ← mark "]"
    return some (.over .subscriptExpression [e.asField .object, opening, index, close])
  else if t.isMark "`" && (isPrimary e || e.kind == .newExpression) then
    let args ← asPart .arguments (template g)
    return some (.over .callExpression [e.asField .function, args])
  else if t.isMark "?." then
    let dot := (← takeAs .optionalChain).asField .optionalChain
    if (← isMark "(") && isPrimary e then
      let args ← asPart .arguments (arguments g)
      return some (.over .callExpression [e.asField .function, dot, args])
    else if ← isMark "[" then
      let opening ← take
      let index ← asPart .index (g (.expressions false))
      let close ← mark "]"
      return some (.over .subscriptExpression [e.asField .object, dot, opening, index, close])
    else
      let name ← asPart .property memberName
      return some (.over .memberExpression [e.asField .object, dot, name])
  else return none

/-- The links on a constructor. Calls are none of them, and only a template is linked to a
constructor that `new` begins. -/
def constructorLinks : Nat → Node → Read Node
  | 0, _ => fail
  | fuel + 1, e => do
    if e.kind == .newExpression && !(← isMark "`") then return e
    match ← link? g e with
    | some e => constructorLinks fuel e
    | none => return e

def assignmentMarks : List String :=
  ["+=", "-=", "*=", "/=", "%=", "**=", "<<=", ">>=", ">>>=", "&=", "|=", "^=", "&&=", "||=", "??="]

/-- What follows an operand: links, calls, steps up or down (where `steps` is set), at last an
assignment to it. -/
def tail (ends steps : Bool) : Nat → Node → Read Node
  | 0, _ => fail
  | fuel + 1, e => do
    if ← endsAfter ends then return e
    let t ← look
    if t.isMark "(" then
      let args ← asPart .arguments (arguments g)
      tail ends steps fuel (.over .callExpression [e.asField .function, args])
    else if t.isMark "++" || t.isMark "--" then
      if steps then
        let op ← asPart .operator take
        tail ends steps fuel (.over .updateExpression [e.asField .argument, op])
      else return e
    else if t.isMark "=" then
      match e.toAssignable? with
      | none => fail
      | some left =>
        let eq ← take
        let right ← asPart .right (g (.expression ends 0))
        return .over .assignmentExpression [left.asField .left, eq, right]
    else if t.kind == .mark && assignmentMarks.contains t.text then
      if e.isUpdatable then
        let op ← asPart .operator take
        let right ← asPart .right (g (.expression ends 0))
        return .over .augmentedAssignmentExpression [e.asField .left, op, right]
      else fail
    else match ← link? g e with
      | some e => tail ends steps fuel e
      | none => return e

/-! ### Operands -/

/-- An expression in parentheses, or the parameters of an arrow function. -/
def parenthesized (ends : Bool) : Read Node := do
  let opening ← mark "("
  let items ← listTail (elementOrSpread g) ")" false (← bound)
  if (← isMark "=>") && !(← endsAfter ends) then
    match toParameters? (opening :: items) with
    | some ps => arrowFrom g ends [] (ps.asField .parameters)
    | none => fail
  else
    let inner := items.dropLast
    match inner with
    | [] => fail
    | [e] => if e.kind == .spreadElement then fail
             else return .over .parenthesizedExpression (opening :: items)
    | es =>
      if (es.getLast?.map fun n => n.named) != some true
          || es.any (·.kind == .spreadElement) then fail
      else
        let close := items.getLast?.toList
        return .over .parenthesizedExpression (opening :: .over .sequenceExpression es :: close)

/-- A name, or the one parameter of an arrow function. -/
def nameOperand (ends : Bool) : Read Node := do
  let name ← takeAs .identifier
  if (← isMark "=>") && !(← endsAfter ends) then arrowFrom g ends [] (name.asField .parameter)
  else return name

/-- `async` may begin a function or be a name. -/
def asyncOperand (ends : Bool) : Read Node := do
  let c := (← get).advance
  let next := c.look
  if ends && (c.impliedEnd false).isSome then nameOperand g ends
  else if next.isWord "function" then functionTail g false true [← take]
  else if next.isReference && c.advance.look.isMark "=>" then
    let a ← take
    let p ← asPart .parameter (takeAs .identifier)
    arrowFrom g ends [a] p
  else if next.isMark "(" then
    let a ← look
    modify Cursor.advance
    let args ← arguments g
    if ← isMark "=>" then
      match toParameters? args.children with
      | some ps => arrowFrom g ends [a.node] (ps.asField .parameters)
      | none => fail
    else
      let name := a.leaf .identifier
      return .over .callExpression [name.asField .function, args.asField .arguments]
  else nameOperand g ends

/-- An import that is called, a part of one, or what is known of the module. -/
def importOperand : Read Node := do
  let i ← take
  let t ← look
  if t.isMark "." then
    let dot ← take
    let m ← word "meta"
    return .over .metaProperty [i, dot, m]
  else
    let i := Node.over .importWord [i]
    if t.isMark "(" then
      let args ← asPart .arguments (arguments g)
      return .over .callExpression [i.asField .function, args]
    else if t.isMark "?." then
      let dot := (← takeAs .optionalChain).asField .optionalChain
      let name ← asPart .property memberName
      return .over .memberExpression [i.asField .object, dot, name]
    else fail

/-- The name and the arguments of a call of a name. Among operands without links only `async` is
called; after `new` its arguments are those of the constructor. -/
def calledName? (n : Node) : Option (Node × Node) :=
  match n.kind, n.child? .function, n.child? .arguments with
  | .callExpression, some f, some args => if f.kind == .identifier then some (f, args) else none
  | _, _, _ => none

/-- `new` and what follows: a constructor with its links, then arguments if there are any. -/
def newTail (primary : Read Node) : Read Node := do
  let n ← word "new"
  if ← isMark "." then
    let dot ← take
    let target ← word "target"
    return .over .metaProperty [n, dot, target]
  let start ← primary
  match calledName? start with
  | some (f, args) => return .over .newExpression [n, f.asField .constructor, args]
  | none =>
    let made ← constructorLinks g (← bound) start
    let args ← (do if ← isMark "(" then return [← asPart .arguments (arguments g)] else return [])
    return .over .newExpression ([n, made.asField .constructor] ++ args)

/-- An operand without what is linked to it. -/
def primary (ends : Bool) : Nat → Read Node
  | 0 => fail
  | fuel + 1 => do
    let t ← look
    match t.kind with
    | .finish | .privateName => fail
    | .brace => object g
    | .number => takeAs .number
    | .mark =>
      match t.text with
      | "(" => parenthesized g ends
      | "[" => array g
      | "\x7b" => object g
      | "`" => template g
      | "\"" | "'" => string
      | "/" | "/=" => regex
      | "@" => classTail g false (← decorators g)
      | _ => fail
    | .word | .name =>
      match t.text with
      | "function" => functionTail g false true []
      | "class" => classTail g false []
      | "new" => newTail g (primary ends fuel)
      | "this" => takeAs .thisWord
      | "super" => takeAs .superWord
      | "null" => takeAs .nullWord
      | "true" => takeAs .trueWord
      | "false" => takeAs .falseWord
      | "undefined" => takeAs .undefinedWord
      | "import" => importOperand g
      | "async" => asyncOperand g ends
      | "typeof" | "void" | "delete" | "await" | "yield" => fail
      | _ => if t.isReference then nameOperand g ends else fail

/-- Whether an expression can begin with the token. -/
def beginsExpression (t : Token) : Bool :=
  match t.kind with
  | .number | .privateName | .name => true
  | .word => !(["in", "instanceof"].contains t.text)
  | .mark => ["(", "[", "\x7b", "\"", "'", "`", "+", "-", "!", "~", "++", "--", "/", "/=", "@",
      "<"].contains t.text
  | _ => false

/-- `yield` with a value if one follows. -/
def yielded (ends : Bool) : Read Node := do
  let y ← take
  if ← endsAfter ends then return .over .yieldExpression [y]
  let t ← look
  if t.isMark "*" then
    let star ← take
    let e ← g (.expression ends 0)
    return .over .yieldExpression [y, star, e]
  else if beginsExpression t then
    let e ← g (.expression ends 0)
    return .over .yieldExpression [y, e]
  else return .over .yieldExpression [y]

/-- Whether an object has a private name. -/
def privateTest (ends : Bool) : Read Node := do
  let name ← takeAs .privatePropertyIdentifier
  if ← isWord "in" then
    let op ← asPart .operator take
    let right ← asPart .right (g (.expression ends 9))
    return .over .binaryExpression [name.asField .left, op, right]
  else fail

def unaryMarks : List String := ["+", "-", "!", "~"]
def unaryWords : List String := ["typeof", "void", "delete"]

/-- An operand with what is written before and after it. Steps up or down after it belong to it
where `steps` is set. -/
def operand (ends steps : Bool) : Nat → Read Node
  | 0 => fail
  | fuel + 1 => do
    let t ← lookFresh
    let withTail (r : Read Node) : Read Node := do tail g ends steps (← bound) (← r)
    if t.kind == .privateName then privateTest g ends
    else if t.kind == .mark && unaryMarks.contains t.text
        || t.kind == .word && unaryWords.contains t.text then
      let op ← asPart .operator take
      let arg ← asPart .argument (operand ends true fuel)
      return .over .unaryExpression [op, arg]
    else if t.isMark "++" || t.isMark "--" then
      let op ← asPart .operator take
      let arg ← asPart .argument (operand ends false fuel)
      withTail (return .over .updateExpression [op, arg])
    else if t.isWord "await" then
      let op ← take
      let arg ← operand ends true fuel
      return .over .awaitExpression [op, arg]
    else if t.isWord "yield" then withTail (yielded g ends)
    else if ← isExactly "<" then withTail (Element.elementOperand g)
    else withTail (do primary g ends (← bound))

/-! ### Operators -/

/-- Whether the token goes on with an expression and can begin no statement. -/
def goesOn (t : Token) : Bool :=
  match t.kind with
  | .word => t.text == "in" || t.text == "instanceof"
  | .mark => ["=", ",", ".", "?.", "?", "*", "**", "%", ">", "<=", ">=", "==", "!=", "===", "!==",
      "&", "|", "^", "&&", "||", "??", "<<", ">>", ">>>"].contains t.text
      || assignmentMarks.contains t.text
  | _ => false

/-- How tightly a binary operator binds, and whether it groups to the right. -/
def binaryLevel? (t : Token) : Option (Nat × Bool) :=
  match t.kind with
  | .word => if t.text == "in" || t.text == "instanceof" then some (8, false) else none
  | .mark =>
    if t.text == "??" then some (1, false)
    else if t.text == "||" then some (2, false)
    else if t.text == "&&" then some (3, false)
    else if t.text == "|" then some (4, false)
    else if t.text == "^" then some (5, false)
    else if t.text == "&" then some (6, false)
    else if ["==", "!=", "===", "!=="].contains t.text then some (7, false)
    else if ["<", ">", "<=", ">="].contains t.text then some (8, false)
    else if ["<<", ">>", ">>>"].contains t.text then some (9, false)
    else if t.text == "+" || t.text == "-" then some (10, false)
    else if ["*", "/", "%"].contains t.text then some (11, false)
    else if t.text == "**" then some (12, true)
    else none
  | _ => none

/-- The operators that follow `left`. -/
def operators (ends : Bool) (level : Nat) : Nat → Node → Read Node
  | 0, _ => fail
  | fuel + 1, left => do
    if ← endsAfter ends then return left
    let t ← look
    match binaryLevel? t with
    | some (own, toRight) =>
      if own < level then return left
      let op ← asPart .operator take
      let right ← asPart .right (g (.expression ends (if toRight then own else own + 1)))
      operators ends level fuel (.over .binaryExpression [left.asField .left, op, right])
    | none =>
      if level ≤ 1 && t.isMark "?" && (← get).plainGap then
        let q ← take
        let yes ← asPart .consequence (g (.expression false 0))
        let colon ← mark ":"
        let no ← asPart .alternative (g (.expression ends 0))
        return .over .ternaryExpression [left.asField .condition, q, yes, colon, no]
      else return left

def expression (ends : Bool) (level : Nat) : Read Node := do
  let n ← bound
  let left ← operand g ends true n
  operators g ends level n left

def sequenceTail (ends : Bool) : Nat → Read (List Node)
  | 0 => fail
  | fuel + 1 => do
    if ← endsAfter ends then return []
    if ← isMark "," then
      let comma ← take
      let e ← g (.expression ends 0)
      return comma :: e :: (← sequenceTail ends fuel)
    else return []

def expressions (ends : Bool) : Read Node := do
  let first ← g (.expression ends 0)
  match ← sequenceTail g ends (← bound) with
  | [] => return first
  | more => return .over .sequenceExpression (first :: more)

end Stepper.Syntax.Expression
