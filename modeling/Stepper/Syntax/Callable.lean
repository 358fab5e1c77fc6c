import Stepper.Syntax.Literal

/-!
Functions, their parameters and the targets that are bound. A list of parameters is first read as a
list of expressions, because an arrow that shows what it is comes after it.
-/
namespace Stepper.Syntax.Callable

open Read Literal

variable (g : Grammar)

/-- Elements and marks in turn, from mark to mark; no element at all is fine, a missing one is not.
-/
def alternates : List Bool → Bool
  | [false] => true
  | [false, false] => true
  | false :: true :: rest => alternates rest
  | _ => false

/-- The parameters that a list of expressions in parentheses stands for. -/
def toParameters? (children : List Node) : Option Node := do
  let cs ← children.mapM fun c => if c.named then c.toParameter? else some c
  if alternates (cs.map Node.named) then some (.over .formalParameters cs) else none

def formalParameters : Read Node := do
  let opening ← mark "("
  let items ← listTail (elementOrSpread g) ")" false (← bound)
  match toParameters? (opening :: items) with
  | some n => return n
  | none => fail

/-- A pattern in brackets or braces. -/
def destructuring : Read Node := do
  let value ← (do if ← isMark "[" then array g else g .object)
  match value.toPattern? with
  | some n => return n
  | none => fail

/-- A name, or a pattern in brackets or braces. -/
def bindingTarget : Read Node := do
  if (← isMark "[") || (← isMark "\x7b") then destructuring g else identifier

/-- `=` and a value whose operators bind at least as tightly as `level`. -/
def initializer (ends : Bool) (level : Nat) : Read (List Node) := do
  let eq ← mark "="
  let v ← asPart .value (g (.expression ends level))
  return [eq, v]

def functionBody (operatorMayFollow : Bool) : Read Node :=
  asPart .body (g (.block operatorMayFollow false))

/-- The name of a function or class, if it has one. -/
def name? : Read (List Node) := do
  if (← look).isIdentifier then return [← asPart .name identifier] else return []

/-- A function after its optional `async`. Where `declares` is set a name makes it a declaration. -/
def functionTail (declares operatorMayFollow : Bool) (lead : List Node) : Read Node := do
  let f ← word "function"
  let star ← mark? "*"
  let name ← name?
  let ps ← asPart .parameters (formalParameters g)
  let body ← functionBody g operatorMayFollow
  let declares := declares && !name.isEmpty
  let kind : Kind :=
    if star.isEmpty then if declares then .functionDeclaration else .functionExpression
    else if declares then .generatorFunctionDeclaration else .generatorFunction
  return .over kind (lead ++ [f] ++ star ++ name ++ [ps, body])

/-- Whether a brace ahead may open an object whose first part is a name with a value. -/
def labelAhead : Read Bool := do
  let c := (← get).advance.freeWord
  return c.look.isReference && c.advance.look.isMark ":"

/-- What a brace ahead opens: a block, unless what follows the block goes on with an object. A name
with a value is rather an object's than a labeled statement. -/
def blockOr (block : Read Node) (objectFirst : Read Node) (goesOn : Token → Bool) : Read Node := do
  let object : Read Node := do
    modify Cursor.atObject
    objectFirst
  if ← labelAhead then orElse object block
  else orElse (unlessFollowed goesOn block object) object

/-- The body of an arrow function: an object or another expression, or a block. -/
def arrowBody (ends : Bool) : Read Node := do
  if ← isMark "\x7b" then
    asPart .body (blockOr (g (.block true true)) (g (.expression ends 0)) (·.isMark "="))
  else asPart .body (g (.expression ends 0))

def arrowFrom (ends : Bool) (lead : List Node) (parameter : Node) : Read Node := do
  let arrow ← mark "=>"
  let body ← arrowBody g ends
  return .over .arrowFunction (lead ++ [parameter, arrow, body])

end Stepper.Syntax.Callable
