import Stepper.Machine.Course

/-!
Actions: what the machine does in a context. An action ends with a value or is cut short, and leaves
a state in both cases; the state changes only through the operations at the end of this module. The
context holds the evaluator of what is nested in the current construct, so that no
definition here refers to itself through another module.
-/
namespace Stepper.Machine

open Syntax

/-- How a target binds its names. -/
inductive BindMode where
  /-- As an assignment does; targets may be properties. -/
  | assign
  /-- As an assignment to names does. -/
  | var
  | declare (kind : BindingKind)
  deriving DecidableEq, Repr

/-- The entry points of the machine. -/
structure Evaluator where
  /-- The value of an expression; the flag says that the expression is the head of a longer chain.
  -/
  eval : Node → ScopeRef → Bool → World → Course Value
  /-- Runs a statement under some labels. -/
  exec : Node → ScopeRef → List String → World → Course Unit
  /-- Binds the names of a target. -/
  bind : Node → Value → ScopeRef → BindMode → World → Course Unit
  call : Value → Value → List Value → World → Course Value
  construct : Value → List Value → Value → World → Course Value

structure Context where
  source : String
  /-- Whether console calls are formatted for the host. -/
  wantsText : Bool
  realm : Realm
  /-- How many frames are left of the stack: whatever follows nested data takes some at each level,
  and cannot go on when there are none. -/
  room : Nat
  inner : Evaluator

def Action (α : Type) : Type := Context → World → Course α

namespace Action

variable {α β γ : Type}

@[always_inline, inline]
protected def pure (a : α) : Action α := fun _ w => .done a w

@[always_inline, inline]
protected def bind (x : Action α) (f : α → Action β) : Action β := fun c w =>
  (x c w).bind fun a w => f a c w

@[always_inline]
instance : Monad Action where
  pure := Action.pure
  bind := Action.bind

@[always_inline, inline]
def interrupt (i : Interrupt) : Action α := fun _ w => .broke i w

/-- What an action came to, a value or what cut it short. -/
@[always_inline, inline]
def attempt (x : Action α) : Action (Except Interrupt α) := fun c w => (x c w).attempt

/-- Runs an action again on what it gave, until it gives an end. -/
def loop (body : α → Action (α ⊕ β)) (fuel : Nat) (a : α) (c : Context) (w : World) : Course β :=
  match fuel with
  | 0 => .broke (.fault .outOfFuel) w
  | fuel + 1 =>
    match body a c w with
    | .done (.inl a) w => loop body fuel a c w
    | .done (.inr b) w => .done b w
    | .broke i w => .broke i w
    | .tell q w next => .tell q w fun r => (next r).bind fun x w => match x with
      | .inl a => loop body fuel a c w
      | .inr b => .done b w

/-- More rounds than any run makes. -/
def maxRounds : Nat := Nat.pow 2 60

@[inline]
def repeating (a : α) (body : α → Action (α ⊕ β)) : Action β := loop body maxRounds a

def each (f : α → Action Unit) (as : List α) (c : Context) (w : World) : Course Unit :=
  match as with
  | [] => .done () w
  | a :: as =>
    match f a c w with
    | .done _ w => each f as c w
    | .broke i w => .broke i w
    | .tell q w next => .tell q w fun r => (next r).bind fun _ w => each f as c w

def collectRev (f : α → Action β) (as : List α) (acc : List β) (c : Context) (w : World) :
    Course (List β) :=
  match as with
  | [] => .done acc w
  | a :: as =>
    match f a c w with
    | .done b w => collectRev f as (b :: acc) c w
    | .broke i w => .broke i w
    | .tell q w next => .tell q w fun r => (next r).bind fun b w => collectRev f as (b :: acc) c w

/-- The values that an action gives for each of several things, in their order. -/
def collect (f : α → Action β) (as : List α) : Action (List β) := do
  return (← collectRev f as []).reverse

@[always_inline, inline]
def inner (f : Evaluator → World → Course α) : Action α := fun c w => f c.inner w

def source : Action String := fun c w => .done c.source w
def wantsText : Action Bool := fun c w => .done c.wantsText w
def realm : Action Realm := fun c w => .done c.realm w
def room : Action Nat := fun c w => .done c.room w

/-- The text of a node. -/
def textOf (n : Node) : Action String := do return n.text (← source)

def raise (kind : ErrorKind) (message : Text) : Action α := interrupt (.raised kind message)
def typeError (message : Text) : Action α := raise .typeError message
def fault (f : Fault) : Action α := interrupt (.fault f)

/-- A result of a function that may fault. -/
def ofExcept : Except Fault α → Action α
  | .ok a => pure a
  | .error f => fault f

def heap : Action Heap := fun _ w => .done w.heap w

def object (r : Ref) : Action Object := fun _ w => .done (w.heap.get r) w

def alloc (o : Object) : Action Ref := fun _ ⟨heap, scopes, depth⟩ =>
  let (r, heap) := heap.alloc o
  .done r ⟨heap, scopes, depth⟩

/-- Changes an object. -/
def update (r : Ref) (f : Object → Object) : Action Unit := fun _ ⟨heap, scopes, depth⟩ =>
  .done () ⟨heap.modify r f, scopes, depth⟩

def scopes : Action Scopes := fun _ w => .done w.scopes w

def scope (e : ScopeRef) : Action Scope := fun _ w => .done (w.scopes.get e) w

def allocScope (s : Scope) : Action ScopeRef := fun _ ⟨heap, scopes, depth⟩ =>
  let (e, scopes) := scopes.alloc s
  .done e ⟨heap, scopes, depth⟩

/-- A scope inside another. -/
def childScope (e : ScopeRef) : Action ScopeRef := allocScope { parent := some e }

def declare (e : ScopeRef) (name : String) (kind : BindingKind) (value : Option Value) :
    Action Unit := fun _ ⟨heap, scopes, depth⟩ =>
  .done () ⟨heap, scopes.declare e name kind value, depth⟩

def assign (e : ScopeRef) (name : String) (value : Value) : Action Unit :=
  fun _ ⟨heap, scopes, depth⟩ =>
  match scopes.assignable e name with
  | .ok (f, kind) => .done () ⟨heap, scopes.setBinding f name ⟨some value, kind⟩, depth⟩
  | .error x => .broke (.raised x.kind x.message) ⟨heap, scopes, depth⟩

/-- Decides `this` in a scope. -/
def setThis (e : ScopeRef) (v : Value) : Action Unit := fun _ ⟨heap, scopes, depth⟩ =>
  .done () ⟨heap, scopes.modify e fun s => { s with this := some v }, depth⟩

def lookup (e : ScopeRef) (name : String) : Action Value := fun _ w =>
  match w.scopes.read e name with
  | .ok v => .done v w
  | .error x => .broke (.raised x.kind x.message) w

def this (e : ScopeRef) : Action Value := fun _ w =>
  match w.scopes.this e with
  | .ok v => .done v w
  | .error x => .broke (.raised x.kind x.message) w

/-- Runs an action one function deeper. -/
def deeper (x : Action α) : Action α := fun c w =>
  (x c { w with depth := w.depth + 1 }).mapWorld fun w => { w with depth := w.depth - 1 }

def depth : Action Nat := fun _ w => .done w.depth w

/-- Tells the host something about the state, and heeds its reply. -/
def tell (f : Heap → Call) : Action Unit := fun _ w =>
  .tell (f w.heap) w fun r => match r.interrupt? with
    | none => .done () w
    | some i => .broke i w

def eval (n : Node) (e : ScopeRef) : Action Value := inner fun m => m.eval n e false
def evalHead (n : Node) (e : ScopeRef) : Action Value := inner fun m => m.eval n e true
def exec (n : Node) (e : ScopeRef) : Action Unit := inner fun m => m.exec n e []
def execLabeled (n : Node) (e : ScopeRef) (labels : List String) : Action Unit :=
  inner fun m => m.exec n e labels
def bindTarget (n : Node) (v : Value) (e : ScopeRef) (mode : BindMode) : Action Unit :=
  inner fun m => m.bind n v e mode
def call (f this : Value) (args : List Value) : Action Value := inner fun m => m.call f this args
def construct (f : Value) (args : List Value) (newTarget : Value) : Action Value :=
  inner fun m => m.construct f args newTarget

end Action
end Stepper.Machine
