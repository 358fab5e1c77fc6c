import Stepper.OrderedMap
import Stepper.Machine.Value

/-!
Scopes: what names are bound to. A scope holds its own bindings and knows the scope around it; the
scopes of functions also hold what `this` is. Scopes are kept in one store and never removed, so a
closure is a node with the place of a scope.
-/
namespace Stepper.Machine

/-- How a name was bound. -/
inductive BindingKind where
  | var | let_ | const | function | param | class_
  deriving DecidableEq, Repr

def BindingKind.name : BindingKind → String
  | .var => "var"
  | .let_ => "let"
  | .const => "const"
  | .function => "function"
  | .param => "param"
  | .class_ => "class"

def BindingKind.all : List BindingKind := [.var, .let_, .const, .function, .param, .class_]

/-- A binding without a value may not be read yet. -/
structure Binding where
  value : Option Value
  kind : BindingKind

def Binding.isMutable (b : Binding) : Bool := b.kind != .const
def Binding.isInitialized (b : Binding) : Bool := b.value.isSome

structure Scope where
  parent : Option ScopeRef := none
  bindings : OrderedMap String Binding := []
  /-- Whether `this` is decided here. -/
  hasThis : Bool := false
  /-- None before the parent's constructor has returned. -/
  this : Option Value := some .undefined
  function : Option Ref := none
  home : Option Ref := none
  newTarget : Option Ref := none
  deriving Inhabited

/-- What can go wrong with a name. -/
inductive ScopeError where
  | notDefined (name : String)
  | notInitialized (name : String)
  | constant
  /-- `this` before the parent's constructor has returned. -/
  | noThis
  deriving DecidableEq, Repr

def ScopeError.kind : ScopeError → ErrorKind
  | .constant => .typeError
  | _ => .referenceError

def ScopeError.message : ScopeError → String
  | .notDefined name => s!"{name} is not defined"
  | .notInitialized name => s!"Cannot access '{name}' before initialization"
  | .constant => "Assignment to constant variable."
  | .noThis => "Must call super constructor in derived class before " ++
      "accessing 'this' or returning from derived constructor"

structure Scopes where
  all : Array Scope := #[]
  deriving Inhabited

namespace Scopes

def get (s : Scopes) (e : ScopeRef) : Scope := s.all.getD e.index {}

def modify (s : Scopes) (e : ScopeRef) (f : Scope → Scope) : Scopes :=
  ⟨s.all.modify e.index f⟩

def alloc (s : Scopes) (scope : Scope) : ScopeRef × Scopes :=
  (⟨s.all.size⟩, ⟨s.all.push scope⟩)

def setBinding (s : Scopes) (e : ScopeRef) (name : String) (b : Binding) : Scopes :=
  s.modify e fun scope => { scope with bindings := scope.bindings.set name b }

/-- Binds a name in a scope itself. A `var` leaves a name alone that is already bound there. -/
def declare (s : Scopes) (e : ScopeRef) (name : String) (kind : BindingKind)
    (value : Option Value) : Scopes :=
  if kind = .var ∧ ((s.get e).bindings.get? name).isSome then s
  else s.setBinding e name ⟨value, kind⟩

/-- Gives a declared name its value. -/
def initialise (s : Scopes) (e : ScopeRef) (name : String) (value : Option Value) : Scopes :=
  match (s.get e).bindings.get? name with
  | none => s.setBinding e name ⟨value, .let_⟩
  | some b => s.setBinding e name { b with value }

/-! A scope is younger than the scope around it, so the way outwards ends. -/

/-- The scope around a scope. -/
def parent? (s : Scopes) (e : ScopeRef) : Option ScopeRef :=
  (s.get e).parent.filter fun p => p.index < e.index

theorem parent?_lt {s : Scopes} {e p : ScopeRef} (h : s.parent? e = some p) :
    p.index < e.index := by
  simp only [parent?, Option.filter_eq_some_iff] at h
  simpa using h.2

/-- The innermost scope that binds a name, seen from `e`. -/
def holder? (s : Scopes) (name : String) (e : ScopeRef) : Option ScopeRef :=
  if ((s.get e).bindings.get? name).isSome then some e
  else match _h : s.parent? e with
    | none => none
    | some p => s.holder? name p
termination_by e.index
decreasing_by exact parent?_lt (by assumption)

def resolve (s : Scopes) (e : ScopeRef) (name : String) : Option Binding :=
  match s.holder? name e with
  | none => none
  | some f => (s.get f).bindings.get? name

def read (s : Scopes) (e : ScopeRef) (name : String) : Except ScopeError Value :=
  match s.resolve e name with
  | none => .error (.notDefined name)
  | some b =>
    match b.value with
    | none => .error (.notInitialized name)
    | some v => .ok v

/-- The outermost scope. -/
def outermost (s : Scopes) (e : ScopeRef) : ScopeRef :=
  match _h : s.parent? e with
  | none => e
  | some p => s.outermost p
termination_by e.index
decreasing_by exact parent?_lt (by assumption)

/-- Where an assignment to a name goes, and the kind of the binding there: to the innermost binding,
or, of a name that is bound nowhere, to a new `var` of the outermost scope. -/
def assignable (s : Scopes) (e : ScopeRef) (name : String) :
    Except ScopeError (ScopeRef × BindingKind) :=
  match s.holder? name e with
  | none => .ok (s.outermost e, .var)
  | some f =>
    match (s.get f).bindings.get? name with
    | none => .error (.notDefined name)
    | some b =>
      if !b.isInitialized then .error (.notInitialized name)
      else if !b.isMutable then .error .constant
      else .ok (f, b.kind)

def assign (s : Scopes) (e : ScopeRef) (name : String) (value : Value) : Except ScopeError Scopes :=
  match s.assignable e name with
  | .error x => .error x
  | .ok (f, kind) => .ok (s.setBinding f name ⟨some value, kind⟩)

/-- The innermost scope that decides `this`. -/
def functionScope (s : Scopes) (e : ScopeRef) : ScopeRef :=
  if (s.get e).hasThis then e
  else match _h : s.parent? e with
    | none => e
    | some p => s.functionScope p
termination_by e.index
decreasing_by exact parent?_lt (by assumption)

def this (s : Scopes) (e : ScopeRef) : Except ScopeError Value :=
  match (s.get (s.functionScope e)).this with
  | none => .error .noThis
  | some v => .ok v

def names (s : Scopes) (e : ScopeRef) : List String := (s.get e).bindings.keys

end Scopes
end Stepper.Machine
