import Stepper.Syntax.Expression

/-!
Statements and whole programs. A brace at the start of a statement opens a block, unless only an
object makes sense of it.
-/
namespace Stepper.Syntax.Statement

open Read Literal Callable Property Expression

variable (g : Grammar)

/-- Statements up to a closing mark or word, which is not taken. -/
def statementsUntil (stops : Token → Bool) : Nat → Read (List Node)
  | 0 => fail
  | fuel + 1 => do
    if stops (← lookFresh) then return []
    let s ← g .statement
    return s :: (← statementsUntil stops fuel)

/-- A block. Comments after it on its line belong to it where an operator may follow. Where the
brace could open an object as well, its first word is a name if it begins no statement, and an
operator may follow an empty block. -/
def block (operatorMayFollow orObject : Bool) : Read Node := do
  let opening ← mark "\x7b"
  if orObject then modify Cursor.freeWord
  let body ← statementsUntil g (fun t => t.isMark "\x7d") (← bound)
  let close ← mark "\x7d"
  match ← impliedEnd (!(operatorMayFollow || orObject && body.isEmpty)) with
  | some stop => moveTo stop; return .overTo .statementBlock (opening :: body ++ [close]) stop
  | none =>
    modify fun c => { c with closable := true }
    return .over .statementBlock (opening :: body ++ [close])

/-- A class that is declared ends like a block. -/
def declaredClass (operatorMayFollow : Bool) (lead : List Node) : Read Node := do
  let n ← classTail g true lead
  match n.kind, ← impliedEnd (!operatorMayFollow) with
  | .classDeclaration, some stop => moveTo stop; return { n with stop := max n.stop stop }
  | _, _ =>
    modify fun c => { c with closable := true }
    return n

def parenthesizedCondition : Read Node := do
  let opening ← mark "("
  let e ← g (.expressions false)
  let close ← mark ")"
  return .over .parenthesizedExpression [opening, e, close]

def expressionStatement : Read Node := do
  let e ← g (.expressions true)
  let (tail, stop) ← semicolon true
  return .overTo .expressionStatement (e :: tail) stop

/-- Declarators with commas between; also whether the last one has a value. -/
def declarators : Nat → Read (List Node × Bool)
  | 0 => fail
  | fuel + 1 => do
    let target ← asPart .name (bindingTarget g)
    let bare := (← impliedEnd true).isSome
    let value ← (do if !bare && (← isMark "=") then initializer g true 0 else return [])
    let d := Node.over .variableDeclarator (target :: value)
    let ended ← (do if value.isEmpty then return bare else endsAfter true)
    if !ended && (← isMark ",") then
      let comma ← take
      let (ds, valued) ← declarators fuel
      return (d :: comma :: ds, valued)
    else return ([d], !value.isEmpty)

def declaration : Read Node := do
  let t ← look
  let kind : Kind := if t.text == "var" then .variableDeclaration else .lexicalDeclaration
  let w ← take
  let w := if kind == .lexicalDeclaration then w.asField .kind else w
  let (ds, valued) ← declarators g (← bound)
  let (tail, stop) ← semicolon valued
  return .overTo kind (w :: ds ++ tail) stop

/-! ### Loops -/

/-- Whether a declaration is ahead in the head of a loop. There `let of` is no declaration. -/
def declarationAhead : Read Bool := do
  let t ← look
  let next ← lookBeyond
  return t.isWord "var" || t.isWord "const" || t.isWord "let" &&
    (next.isIdentifier && !next.isWord "of" || next.isMark "[" || next.isMark "\x7b")

/-- The items of a loop, after the name or the target that stands for one of them. -/
def itemsTail (left : List Node) : Read (List Node) := do
  let op ← (do
    if (← isWord "in") || (← isWord "of") then asPart .operator take else fail)
  let right ← asPart .right (g (.expressions false))
  let close ← mark ")"
  return left ++ [op, right, close]

/-- A value at the start of a loop over items, which may hold comparisons; the first `in` that can
end it does. -/
def valueIn (left : List Node) : Nat → Node → Read (List Node)
  | 0, _ => fail
  | fuel + 1, value => do
    let more : Read (List Node) := do
      match binaryLevel? (← look) with
      | some (8, _) =>
        let op ← asPart .operator take
        let right ← asPart .right (g (.expression false 9))
        valueIn left fuel (.over .binaryExpression [value.asField .left, op, right])
      | _ => fail
    if ← isWord "in" then orElse (itemsTail g (left ++ [value.asField .value])) more else more

/-- A value at the start of a loop over items, up to `of`. -/
def valueOf (wait : Bool) (left : List Node) : Read (List Node) := do
  let value ← asPart .value (g (.expression (!wait) 0))
  if (← isWord "of") && !(← endsAfter (!wait)) then itemsTail g (left ++ [value]) else fail

/-- The head of a loop over the items of a value, after its opening parenthesis, where what stands
for an item is not declared. -/
def targetHead : Read (List Node) := do
  let e ← operand g false true (← bound)
  match e.toAssignable? with
  | some e => itemsTail g [e.asField .left]
  | none => fail

/-- The head of a loop over the items of a value, after its opening parenthesis. -/
def itemsHead (wait : Bool) : Read (List Node) := do
  let t ← look
  if ← declarationAhead then
    let kind ← asPart .kind take
    let target ← asPart .left (bindingTarget g)
    let left := [kind, target]
    if t.isWord "var" then
      if !wait && (← impliedEnd true).isSome then fail
      else if ← isMark "=" then
        let left := left ++ [← take]
        let value := do valueIn g left (← bound) (← g (.expression (!wait) 9))
        orElse value (valueOf g wait left)
      else itemsTail g left
    else itemsTail g left
  else targetHead g

def emptyStatement : Read Node := do
  let s ← mark ";"
  return .over .emptyStatement [s]

/-- The head of a loop with a start, a condition and a step, after its opening parenthesis. -/
def stepsHead : Read (List Node) := do
  let t ← look
  let start ← (do
    if t.isMark ";" then return [← asPart .initializer emptyStatement]
    else if ← declarationAhead then return [← asPart .initializer (declaration g)]
    else if t.isWord "async" && (← lookBeyond).isWord "of" then fail
    else
      let e ← asPart .initializer (g (.expressions false))
      let s ← mark ";"
      return [e, s])
  let condition ← (do
    if ← isMark ";" then return [← asPart .condition emptyStatement]
    else
      let e ← asPart .condition (g (.expressions false))
      let s ← asPart .condition (mark ";")
      return [e, s])
  let step ← (do
    if ← isMark ")" then return [] else return [← asPart .increment (g (.expressions false))])
  let close ← mark ")"
  return start ++ condition ++ step ++ [close]

def forLoop : Read Node := do
  let f ← word "for"
  let wait ← word? "await"
  let opening ← mark "("
  let items : Read (Kind × List Node) := do
    return (.forInStatement, ← itemsHead g (!wait.isEmpty))
  let (kind, head) ← (do
    if wait.isEmpty then orElse items (do return (.forStatement, ← stepsHead g))
    else
      -- here brackets after `let` are rather an index
      let indexed := (← isWord "let") && (← lookBeyond).isMark "["
      if indexed then orElse (do return (.forInStatement, ← targetHead g)) items else items)
  let body ← asPart .body (g .statement)
  return .over kind ([f] ++ wait ++ [opening] ++ head ++ [body])

/-! ### Other statements -/

def ifStatement : Read Node := do
  let i ← word "if"
  let condition ← asPart .condition (parenthesizedCondition g)
  let yes ← asPart .consequence (g .statement)
  if (← lookFresh).isWord "else" then
    let e ← take
    let no ← g .statement
    return .over .ifStatement
      [i, condition, yes, (Node.over .elseClause [e, no]).asField .alternative]
  else return .over .ifStatement [i, condition, yes]

def whileLoop : Read Node := do
  let w ← word "while"
  let condition ← asPart .condition (parenthesizedCondition g)
  let body ← asPart .body (g .statement)
  return .over .whileStatement [w, condition, body]

def doLoop : Read Node := do
  let d ← word "do"
  let opensOther := (← isMark "@") || (← isWord "function") || (← isWord "async") ||
    (← isWord "class") || (← isMark "\x7b") && (← lookBeyond).isMark "\x7d"
  -- a semicolon before `while` can only end an expression
  let body ← asPart .body (orElse
    (do let s ← g .statement; if ← isWord "while" then return s else fail)
    (do
      modify Cursor.atObject
      if opensOther then expressionStatement g else fail))
  let w ← word "while"
  let condition ← asPart .condition (parenthesizedCondition g)
  let base := [d, body, w, condition]
  match ← impliedEnd true with
  | some stop => moveTo stop; return .overTo .doStatement base stop
  | none =>
    modify fun c => { c with closable := true }
    return .over .doStatement (base ++ (← mark? ";"))

def tryStatement : Read Node := do
  let t ← word "try"
  let body ← asPart .body (g (.block false false))
  let handler ← (do
    if ← isWord "catch" then
      let c ← take
      let parameter ← (do
        if ← isMark "(" then
          let opening ← take
          let p ← asPart .parameter (bindingTarget g)
          let close ← mark ")"
          return [opening, p, close]
        else return [])
      let b ← asPart .body (g (.block false false))
      return [(Node.over .catchClause ([c] ++ parameter ++ [b])).asField .handler]
    else return [])
  let finalizer ← (do
    if ← isWord "finally" then
      let f ← take
      let b ← asPart .body (g (.block false false))
      return [(Node.over .finallyClause [f, b]).asField .finalizer]
    else return [])
  return .over .tryStatement ([t, body] ++ handler ++ finalizer)

def withStatement : Read Node := do
  let w ← word "with"
  let o ← asPart .object (parenthesizedCondition g)
  let body ← asPart .body (g .statement)
  return .over .withStatement [w, o, body]

/-- `break` or `continue`, with a label on the same line if there is one. -/
def jump (kind : Kind) : Read Node := do
  let w ← take
  match ← impliedEnd true with
  | some stop => moveTo stop; return .overTo kind [w] stop
  | none =>
    let label ← (do
      if (← look).isIdentifier then return [(← takeAs .statementIdentifier).asField .label]
      else return [])
    let (tail, stop) ← semicolon false
    return .overTo kind ([w] ++ label ++ tail) stop

def debuggerStatement : Read Node := do
  let w ← take
  let (tail, stop) ← semicolon false
  return .overTo .debuggerStatement (w :: tail) stop

def returnStatement : Read Node := do
  let w ← take
  match ← impliedEnd true with
  | some stop => moveTo stop; return .overTo .returnStatement [w] stop
  | none =>
    if ← isMark ";" then return .over .returnStatement [w, ← take]
    else
      let e ← g (.expressions true)
      let (tail, stop) ← semicolon true
      return .overTo .returnStatement ([w, e] ++ tail) stop

def throwStatement : Read Node := do
  let w ← take
  let e ← g (.expressions true)
  let (tail, stop) ← semicolon true
  return .overTo .throwStatement ([w, e] ++ tail) stop

def switchCases : Nat → Read (List Node)
  | 0 => fail
  | fuel + 1 => do
    let ends (t : Token) : Bool := t.isMark "\x7d" || t.isWord "case" || t.isWord "default"
    if ← isMark "\x7d" then return [← take]
    if ← isWord "case" then
      let c ← take
      let value ← asPart .value (g (.expressions false))
      let colon ← mark ":"
      let body ← statementsUntil g ends (← bound)
      return .over .switchCase ([c, value, colon] ++ body.map (·.asField .body))
        :: (← switchCases fuel)
    else
      let d ← word "default"
      let colon ← mark ":"
      let body ← statementsUntil g ends (← bound)
      return .over .switchDefault ([d, colon] ++ body.map (·.asField .body)) :: (← switchCases fuel)

def switchStatement : Read Node := do
  let s ← word "switch"
  let value ← asPart .value (parenthesizedCondition g)
  let opening ← mark "\x7b"
  let cases ← switchCases g (← bound)
  return .over .switchStatement [s, value, (Node.over .switchBody (opening :: cases)).asField .body]

def labeledStatement : Read Node := do
  let label := (← takeAs .statementIdentifier).asField .label
  let colon ← mark ":"
  let body ← asPart .body (g .statement)
  return .over .labeledStatement [label, colon, body]

/-! ### Modules -/

def moduleName : Read Node := do
  let t ← look
  if isQuote t then string
  else if t.isWord "default" then take
  else identifier

def fromClause : Read (List Node) := do
  let f ← word "from"
  let s ← asPart .source string
  return [f, s]

/-- A name, and another after `as` if there is one. What is imported gets a name that can be
bound. -/
def specifier (kind : Kind) : Read Node := do
  let name ← asPart .name moduleName
  if ← isWord "as" then
    let a ← take
    let alias_ ← asPart .alias (if kind == .importSpecifier then identifier else moduleName)
    return .over kind [name, a, alias_]
  else if kind == .importSpecifier && name.kind != .identifier then fail
  else return .over kind [name]

/-- Specifiers with commas between; a comma alone is fine. -/
def specifiers (outer inner : Kind) : Read Node := do
  let opening ← mark "\x7b"
  if ← isMark "," then
    let comma ← take
    return .over outer [opening, comma, ← mark "\x7d"]
  else
    let items ← listTail (specifier inner) "\x7d" false (← bound)
    return .over outer (opening :: items)

def namespaceImport : Read Node := do
  let star ← mark "*"
  let a ← word "as"
  let name ← identifier
  return .over .namespaceImport [star, a, name]

def importClause : Read Node := do
  let more : Read Node := do
    if ← isMark "*" then namespaceImport else specifiers .namedImports .importSpecifier
  if (← isMark "*") || (← isMark "\x7b") then return .over .importClause [← more]
  let name ← identifier
  if ← isMark "," then
    let comma ← take
    return .over .importClause [name, comma, ← more]
  else return .over .importClause [name]

def importStatement : Read Node := do
  let i ← word "import"
  let t ← look
  let what ← (do
    if isQuote t then return [← asPart .source string]
    else
      let clause ← importClause
      return clause :: (← fromClause))
  let attributes ← (do
    if (← isWord "with") && (← impliedEnd true).isNone then
      let w ← take
      let o ← g .object
      return [Node.over .importAttribute [w, o]]
    else return [])
  let (tail, stop) ← semicolon false
  return .overTo .importStatement (i :: what ++ attributes ++ tail) stop

/-- A declaration as it may follow `export`. Where an operator may follow, `async` or `let` at the
end of its line is an expression. -/
def exportable (operatorMayFollow : Bool) : Read Node := do
  let t ← look
  let c := (← get).advance
  let alone := operatorMayFollow && (t.isWord "async" || t.isWord "let")
    && (c.impliedEnd false).isSome
  if alone then fail
  else if t.isWord "var" || t.isWord "let" || t.isWord "const" then declaration g
  else if t.isWord "class" || t.isMark "@" then
    declaredClass g operatorMayFollow (← decorators g)
  else functionTail g true operatorMayFollow (← word? "async")

def isDeclaration (n : Node) : Bool :=
  match n.kind with
  | .functionDeclaration | .generatorFunctionDeclaration | .classDeclaration | .lexicalDeclaration
  | .variableDeclaration => true
  | _ => false

def exportedDeclaration (operatorMayFollow : Bool) : Read Node := do
  let d ← exportable g operatorMayFollow
  if isDeclaration d then return d.asField .declaration else fail

/-- What follows `export`, after decorators if there are any. -/
def exportTail (lead : List Node) : Read Node := do
  let lead := lead ++ [← word "export"]
  let finish (items : List Node) (operatorMayFollow : Bool) : Read Node := do
    let (tail, stop) ← semicolon operatorMayFollow
    return .overTo .exportStatement (lead ++ items ++ tail) stop
  if ← isWord "default" then
    let d ← take
    let plain : Read Node := do
      let v ← asPart .value (g (.expression true 0))
      finish [d, v] true
    let declared : Read Node := do
      return .over .exportStatement (lead ++ [d, ← exportedDeclaration g true])
    orElse (unlessFollowed goesOn declared plain) plain
  else return .over .exportStatement (lead ++ [← exportedDeclaration g false])

/-- Names that are exported, or all of another module. -/
def exportNames : Read Node := do
  let e ← word "export"
  let items ← (do
    if ← isMark "*" then
      let star ← take
      if ← isWord "as" then
        let a ← take
        let name ← moduleName
        return .over .namespaceExport [star, a, name] :: (← fromClause)
      else return star :: (← fromClause)
    else
      let clause ← specifiers .exportClause .exportSpecifier
      if (← isWord "from") && (← impliedEnd true).isNone then return clause :: (← fromClause)
      else return [clause])
  let (tail, stop) ← semicolon false
  return .overTo .exportStatement (e :: items ++ tail) stop

/-! ### Any statement -/

/-- A statement that opens with a brace. -/
def braced : Read Node := blockOr (g (.block false true)) (expressionStatement g) goesOn

/-- A declaration of a function or class, unless what follows goes on with an expression. -/
def declarationOr (declared : Read Node) : Read Node :=
  unlessFollowed goesOn declared (expressionStatement g)

/-- A function that is declared if it has a name, and otherwise begins an expression. `lead` is the
number of words before `function`. -/
def functionOr (lead : List String) : Read Node := do
  let c := (lead ++ ["function"]).foldl (fun c _ => Cursor.advance c) (← get)
  let c := if c.look.isMark "*" then c.advance else c
  if c.look.isIdentifier then
    declarationOr g (do functionTail g true true (← lead.mapM fun w => word w))
  else expressionStatement g

/-- A statement that opens with decorators. -/
def decorated : Read Node := do
  let start ← get
  let marks ← decorators g
  if ← isWord "export" then exportTail g marks
  else
    let declares := (← isWord "class") && (← lookBeyond).isIdentifier
    set start
    if declares then declarationOr g (do declaredClass g true (← decorators g))
    else expressionStatement g

/-- Whether the token goes on with a statement after `export`. -/
def isExportable (t : Token) : Bool :=
  t.isMark "@" || t.kind == .word &&
    ["default", "function", "async", "class", "let", "const", "var"].contains t.text

/-- A statement that opens with a name, perhaps its label. -/
def named : Read Node := do
  let t ← look
  if (← lookBeyond).isMark ":" && t.isReference && !isOperandWord t then labeledStatement g
  else expressionStatement g

def statement : Read Node := do
  let t ← lookFresh
  match t.kind with
  | .mark =>
    match t.text with
    | "\x7b" => braced g
    | ";" => emptyStatement
    | "@" => decorated g
    | _ => expressionStatement g
  | .word =>
    let c := (← get).advance
    let next := c.look
    let alone := (c.impliedEnd false).isSome
    match t.text with
    | "var" | "const" => declaration g
    | "let" =>
      if !alone && (next.isIdentifier || next.isMark "[" || next.isMark "\x7b") then declaration g
      else named g
    | "function" => functionOr g []
    | "class" =>
      if next.isIdentifier then declarationOr g (declaredClass g true [])
      else expressionStatement g
    | "async" => if !alone && next.isWord "function" then functionOr g ["async"] else named g
    | "if" => ifStatement g
    | "for" => forLoop g
    | "while" => whileLoop g
    | "do" => doLoop g
    | "try" => tryStatement g
    | "with" => withStatement g
    | "switch" => switchStatement g
    | "break" => jump .breakStatement
    | "continue" => jump .continueStatement
    | "debugger" => debuggerStatement
    | "return" => returnStatement g
    | "throw" => throwStatement g
    | "import" =>
      if next.isMark "(" || next.isMark "." || next.isMark "?." then expressionStatement g
      else importStatement g
    | "export" =>
      if alone then named g
      else if next.isMark "*" || next.isMark "\x7b" then exportNames
      else if isExportable next then exportTail g []
      else named g
    | _ => named g
  | .name => named g
  | .finish => fail
  | .number | .privateName | .brace => expressionStatement g

/-- Every rule of the grammar, with rules nested at most `fuel` deep. -/
def grammar : Nat → Grammar
  | 0, _ => fail
  | fuel + 1, rule =>
    let g : Grammar := fun r => grammar fuel r
    match rule with
    | .statement => statement g
    | .expression ends level => expression g ends level
    | .expressions ends => expressions g ends
    | .object => object g
    | .block operatorMayFollow orObject => block g operatorMayFollow orObject

end Stepper.Syntax.Statement
