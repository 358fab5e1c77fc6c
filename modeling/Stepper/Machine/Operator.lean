import Stepper.Machine.Convert
import Stepper.Number.Arithmetic
import Stepper.Text.Shown

/-!
The operators on values that are no objects; what an object becomes before it gets here is up to the
machine. `==` asks for that itself, through the function it is given.
-/
namespace Stepper.Machine

open Binary64

/-- The equality of `==`. Objects become other values by `primitive`, numbers are read by `number`;
`steps` bounds the conversions, of which there are never more than five when `primitive` gives no
object. -/
def looseSame {m : Type → Type} [Monad m] (primitive : Value → m Value) (number : Text → m Float)
    (exhausted : m Bool) : Nat → Value → Value → m Bool
  | 0, _, _ => exhausted
  | steps + 1, a, b =>
    let again := looseSame primitive number exhausted steps
    match a, b with
    | .undefined, b | .null, b => pure b.isNullish
    | a, .undefined | a, .null => pure a.isNullish
    | .bool p, .bool q => pure (p == q)
    | .number x, .number y => pure (x == y)
    | .text s, .text t => pure (s == t)
    | .object r, .object q => pure (r == q)
    | .bool p, b => again (.number (boolNumber p)) b
    | a, .bool q => again a (.number (boolNumber q))
    | .number x, .text t => do return x == (← number t)
    | .text t, .number y => do return (← number t) == y
    | .object r, b => do again (← primitive (.object r)) b
    | a, .object r => do again a (← primitive (.object r))

def maxConversions : Nat := 8

inductive Comparison where
  | less | greater | lessOrEqual | greaterOrEqual
  deriving DecidableEq, Repr

def Comparison.symbol : Comparison → String
  | .less => "<"
  | .greater => ">"
  | .lessOrEqual => "<="
  | .greaterOrEqual => ">="

def Comparison.all : List Comparison := [.less, .greater, .lessOrEqual, .greaterOrEqual]

def Comparison.onTexts (c : Comparison) (s t : Text) : Bool :=
  match c, Text.compare s t with
  | .less, .lt | .greater, .gt => true
  | .lessOrEqual, .lt | .lessOrEqual, .eq => true
  | .greaterOrEqual, .gt | .greaterOrEqual, .eq => true
  | _, _ => false

/-- NaN compares with nothing. -/
def Comparison.onNumbers (c : Comparison) (x y : Float) : Bool :=
  match c with
  | .less => x < y
  | .greater => x > y
  | .lessOrEqual => x <= y
  | .greaterOrEqual => x >= y

inductive BinaryOperator where
  | add
  | arithmetic (o : Number.Operation)
  | bitwise (o : Number.BitOperation)
  | compare (c : Comparison)
  | same | notSame | looseSame | notLooseSame | instanceOf | isIn
  deriving DecidableEq, Repr

def BinaryOperator.symbol : BinaryOperator → String
  | .add => "+"
  | .arithmetic o => o.symbol
  | .bitwise o => o.symbol
  | .compare c => c.symbol
  | .same => "==="
  | .notSame => "!=="
  | .looseSame => "=="
  | .notLooseSame => "!="
  | .instanceOf => "instanceof"
  | .isIn => "in"

def BinaryOperator.all : List BinaryOperator :=
  [.add] ++ Number.Operation.all.map .arithmetic ++ Number.BitOperation.all.map .bitwise ++
    Comparison.all.map .compare ++ [.same, .notSame, .looseSame, .notLooseSame, .instanceOf, .isIn]

def BinaryOperator.ofSymbol? (s : String) : Option BinaryOperator :=
  all.find? fun o => o.symbol == s

inductive UnaryOperator where
  | not | negate | plus | complement | void
  deriving DecidableEq, Repr

def UnaryOperator.symbol : UnaryOperator → String
  | .not => "!"
  | .negate => "-"
  | .plus => "+"
  | .complement => "~"
  | .void => "void"

def UnaryOperator.all : List UnaryOperator := [.not, .negate, .plus, .complement, .void]

def UnaryOperator.ofSymbol? (s : String) : Option UnaryOperator := all.find? fun o => o.symbol == s

/-- What is said of a sign that is no unary operator. -/
def unknownUnary (s : String) : String :=
  "Unknown unary operator " ++ (Text.shown (Text.ofString s)).toStr

namespace Heap

variable (h : Heap) (depth : Nat)

/-- Texts are joined, all else is summed. -/
def add (a b : Value) : Except Fault Value :=
  match a, b with
  | .text _, _ | _, .text _ => do return .text ((← h.textOf depth a) ++ (← h.textOf depth b))
  | _, _ => do return .number ((← h.numberOf depth a) + (← h.numberOf depth b))

def arithmetic (o : Number.Operation) (a b : Value) : Except Fault Float := do
  return o.apply (← h.numberOf depth a) (← h.numberOf depth b)

def bitwise (o : Number.BitOperation) (a b : Value) : Except Fault Float := do
  return o.apply (← h.numberOf depth a) (← h.numberOf depth b)

/-- Two texts compare by their code points, all else by numbers. -/
def compare (c : Comparison) (a b : Value) : Except Fault Bool :=
  match a, b with
  | .text s, .text t => .ok (c.onTexts s t)
  | _, _ => do return c.onNumbers (← h.numberOf depth a) (← h.numberOf depth b)

def unary (o : UnaryOperator) (v : Value) : Except Fault Value :=
  match o with
  | .not => .ok (.bool !v.truth)
  | .negate => do return .number (-(← h.numberOf depth v))
  | .plus => do return .number (← h.numberOf depth v)
  | .complement => do return .number (Number.complement (← h.numberOf depth v))
  | .void => .ok .undefined

end Heap
end Stepper.Machine
