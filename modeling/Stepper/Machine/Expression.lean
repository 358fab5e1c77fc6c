import Stepper.Machine.Class
import Stepper.Machine.Operator

/-!
Expressions. A chain of member accesses and calls is evaluated link by link; an optional link that
meets null or undefined ends the whole chain, which is then undefined.
-/
namespace Stepper.Machine

open Syntax

namespace Action

def evalTemplate (n : Node) (e : ScopeRef) : Action Value := do
  let source ← source
  let pieces ← collect (fun (c : Node) => do
    match c.kind with
    | .stringFragment => pure (Text.ofString (c.text source))
    | .escapeSequence => ofExcept (decodeEscape (Text.ofString (c.text source)))
    | .templateSubstitution => toText (← eval (← firstChild c) e)
    | _ => pure []) n.children
  return .text (joinSurrogates pieces.flatten)

/-- The elements of an array literal, latest first; a comma without an element before it leaves one
out. -/
def evalElements (e : ScopeRef) : List Node → Bool → List Value → Action (List Value)
  | [], _, acc => pure acc
  | c :: cs, filled, acc => do
    if c.isToken "[" || c.isToken "]" || c.kind.isComment then evalElements e cs filled acc
    else if c.isToken "," then evalElements e cs false (if filled then acc else .undefined :: acc)
    else if c.kind == .spreadElement then
      let vs ← iterate (← eval (← firstChild c) e)
      evalElements e cs true (vs.reverse ++ acc)
    else
      let v ← eval c e
      evalElements e cs true (v :: acc)

def evalArray (n : Node) (e : ScopeRef) : Action Value := do
  newArray (← evalElements e n.children false []).reverse

/-- Whether a link is written with `?.`. -/
def isOptional (n : Node) : Bool :=
  n.children.any fun c => c.kind == .optionalChain || c.kind == .token "?."

/-- The object and key of a member access. -/
def memberTarget (n : Node) (e : ScopeRef) : Action (Value × Text) := do
  let v ← memberObject n e
  if v.isNullish && isOptional n then interrupt .cutShort
  return (v, ← memberKey n e)

/-- Whether a member access starts at `super`. -/
def startsAtSuper (n : Node) : Bool := match n.child? .object with
  | some o => o.kind == .superWord
  | none => false

/-- The value of a member; behind `super` it is looked up where the method's home object inherits.
-/
def memberValue (n : Node) (e : ScopeRef) (v : Value) (k : Text) : Action Value := do
  if startsAtSuper n then
    let s := (← scopes).functionScope e
    match (← scope s).home with
    | none => fault .noHomeObject
    | some home =>
      match (← object home).proto with
      | none => fault .noHomeObject
      | some p => getFrom p k v
  else get v k

def evalArguments (n : Option Node) (e : ScopeRef) : Action (List Value) := do
  match n with
  | none => return []
  | some n =>
    let groups ← collect (fun (c : Node) => do
      if c.kind == .spreadElement then iterate (← eval (← firstChild c) e)
      else return [← eval c e]) n.namedChildren
    return groups.flatten

/-- The function of a call and the value it is called on. -/
def evalCallee (n : Node) (e : ScopeRef) : Action (Value × Value) := do
  match n.kind with
  | .memberExpression | .subscriptExpression =>
    let (this, k) ← memberTarget n e
    return (← memberValue n e this k, this)
  | _ => return (← evalHead n e, .undefined)

def evalCall (n : Node) (e : ScopeRef) : Action Value := do
  let callee ← part (n.child? .function)
  let args := n.child? .arguments
  if callee.kind == .superWord then
    superConstruct (← evalArguments args e) e
    return .undefined
  let (f, this) ← evalCallee callee e
  if f.isNullish && isOptional n then interrupt .cutShort
  if args.any fun a => a.kind == .templateString then
    raise .syntaxError "Tagged templates are not supported"
  let args ← evalArguments args e
  if !(← isCallable f) then
    typeError (Text.ofString ((← textOf callee) ++ " is not a function"))
  call f this args

def evalLink (n : Node) (e : ScopeRef) : Action Value := do
  if n.kind == .callExpression then evalCall n e
  else
    let (v, k) ← memberTarget n e
    memberValue n e v k

/-- A chain; the head of a longer one leaves its being cut short to the rest. -/
def evalChain (n : Node) (e : ScopeRef) (isHead : Bool) : Action Value := do
  if isHead then evalLink n e
  else match ← attempt (evalLink n e) with
    | .ok v => return v
    | .error .cutShort => return .undefined
    | .error i => interrupt i

def evalNew (n : Node) (e : ScopeRef) : Action Value := do
  let callee ← part (n.child? .constructor)
  let f ← eval callee e
  let args ← evalArguments (n.child? .arguments) e
  if !(← isCallable f) then
    typeError (Text.ofString ((← textOf callee) ++ " is not a constructor"))
  construct f args f

/-- An operation of the language on two values. -/
def binary (o : BinaryOperator) (a b : Value) : Action Value := do
  match o with
  | .add =>
    let x ← toPrimitive a .any
    let y ← toPrimitive b .any
    ofExcept ((← heap).add (← room) x y)
  | .arithmetic o =>
    let x ← toPrimitive a .number
    let y ← toPrimitive b .number
    return .number (← ofExcept ((← heap).arithmetic (← room) o x y))
  | .bitwise o =>
    let x ← toPrimitive a .number
    let y ← toPrimitive b .number
    return .number (← ofExcept ((← heap).bitwise (← room) o x y))
  | .compare c =>
    let x ← toPrimitive a .number
    let y ← toPrimitive b .number
    return .bool (← ofExcept ((← heap).compare (← room) c x y))
  | .same => return .bool (a.same b)
  | .notSame => return .bool !(a.same b)
  | .looseSame => return .bool (← loose a b)
  | .notLooseSame => return .bool !(← loose a b)
  | .instanceOf => return .bool (← instanceOf a b)
  | .isIn =>
    match b with
    | .object r =>
      let k ← toKey a
      return .bool (← ofExcept ((← heap).hasProperty k r))
    | _ =>
      let s ← toText a
      let t ← toText b
      typeError (("Cannot use 'in' operator to search for '" : Text) ++ s ++ ("' in " : Text) ++ t)
where
  loose (a b : Value) : Action Bool :=
    looseSame (fun v => toPrimitive v .any) (fun t => ofExcept (Number.ofText t))
      (fault .nestingTooDeep) maxConversions a b

def binaryBySymbol (s : String) (a b : Value) : Action Value :=
  match BinaryOperator.ofSymbol? s with
  | some o => binary o a b
  | none => raise .syntaxError (Text.ofString ("Unsupported operator " ++ s))

/-- The right side of `&&`, `||` and `??` counts only for some values of the left one. -/
def shortCircuit? (s : String) (left : Value) : Option Bool :=
  if s == "&&" then some !left.truth
  else if s == "||" then some left.truth
  else if s == "??" then some !left.isNullish
  else none

def evalBinary (n : Node) (e : ScopeRef) : Action Value := do
  let symbol := n.operatorText (← source)
  let left ← eval (← part (n.child? .left)) e
  let right ← part (n.child? .right)
  match shortCircuit? symbol left with
  | some true => return left
  | some false => eval right e
  | none => binaryBySymbol symbol left (← eval right e)

def evalDelete (n : Node) (e : ScopeRef) : Action Value := do
  match n.kind with
  | .memberExpression | .subscriptExpression =>
    let (v, k) ← memberTarget n e
    delete v k
  | _ => pure ()
  return .bool true

def evalUnary (n : Node) (e : ScopeRef) : Action Value := do
  let symbol := n.operatorText (← source)
  let argument ← part (n.child? .argument)
  if symbol == "typeof" then
    if argument.kind == .identifier && ((← scopes).resolve e (← textOf argument)).isNone then
      return .ofString "undefined"
    let v ← eval argument e
    return .ofString ((← heap).typeOf v)
  else if symbol == "delete" then evalDelete argument e
  else
    let v ← eval argument e
    match UnaryOperator.ofSymbol? symbol with
    | none => fault .unknownOperator
    | some o =>
      let v ← match o with
        | .negate | .plus | .complement => toPrimitive v .number
        | _ => pure v
      ofExcept ((← heap).unary (← room) o v)

def evalUpdate (n : Node) (e : ScopeRef) : Action Value := do
  let symbol := n.operatorText (← source)
  let r ← reference (← part (n.child? .argument)) e
  let before ← toNumber (← readReference r e)
  let after := if symbol == "++" then before + one else before - one
  writeReference r e (.number after)
  let isFirst := match n.children.head? with
    | some c => c.isToken "++" || c.isToken "--"
    | none => false
  return .number (if isFirst then after else before)

def evalAssignment (n : Node) (e : ScopeRef) : Action Value := do
  let left ← part (n.child? .left)
  let right ← part (n.child? .right)
  match left.kind with
  | .arrayPattern | .objectPattern =>
    let v ← eval right e
    bindTarget left v e .assign
    return v
  | _ =>
    let r ← reference left e
    let hint ← if left.kind == .identifier then nameHint left else pure []
    let v ← evalNamed right e hint
    writeReference r e v
    return v

def evalAugmented (n : Node) (e : ScopeRef) : Action Value := do
  let symbol := String.ofList (n.operatorText (← source)).toList.dropLast
  let r ← reference (← part (n.child? .left)) e
  let right ← part (n.child? .right)
  let before ← readReference r e
  match shortCircuit? symbol before with
  | some true => return before
  | some false =>
    let v ← eval right e
    writeReference r e v
    return v
  | none =>
    let v ← binaryBySymbol symbol before (← eval right e)
    writeReference r e v
    return v

def evalSequence (e : ScopeRef) : List Node → Value → Action Value
  | [], v => pure v
  | c :: cs, _ => do evalSequence e cs (← eval c e)

def evalIdentifier (n : Node) (e : ScopeRef) : Action Value := do
  let name ← textOf n
  if name == "undefined" && ((← scopes).resolve e name).isNone then return .undefined
  else lookup e name

def evaluate (n : Node) (e : ScopeRef) (isHead : Bool) : Action Value := do
  match n.kind with
  | .identifier => evalIdentifier n e
  | .number => return .number (← numberText n)
  | .string => return .text (← literalText n)
  | .templateString => evalTemplate n e
  | .trueWord => return .bool true
  | .falseWord => return .bool false
  | .nullWord => return .null
  | .undefinedWord => return .undefined
  | .thisWord => this e
  | .regex => raise .syntaxError "Regular expression literals are not supported"
  | .array => evalArray n e
  | .object => evalObject n e
  | .functionExpression | .functionWord | .generatorFunction | .arrowFunction =>
    makeFunction n e [] none false
  | .classExpression => evalClass n e
  | .memberExpression | .subscriptExpression | .callExpression => evalChain n e isHead
  | .newExpression => evalNew n e
  | .parenthesizedExpression | .awaitExpression => eval (← firstChild n) e
  | .binaryExpression => evalBinary n e
  | .unaryExpression => evalUnary n e
  | .updateExpression => evalUpdate n e
  | .assignmentExpression => evalAssignment n e
  | .augmentedAssignmentExpression => evalAugmented n e
  | .ternaryExpression =>
    let test ← eval (← part (n.child? .condition)) e
    eval (← part (n.child? (if test.truth then .consequence else .alternative))) e
  | .sequenceExpression => evalSequence e n.namedChildren .undefined
  | _ => raise .syntaxError (Text.ofString ("Unsupported expression: " ++ n.kind.name))

end Action
end Stepper.Machine
