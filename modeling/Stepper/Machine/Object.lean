import Stepper.Fault
import Stepper.Machine.Native
import Stepper.Machine.Scope
import Stepper.Number.Read
import Stepper.Syntax.Node

/-!
Objects and the heap that holds them. Every object has properties in the order in which they were
first set; arrays, dictionaries, sets, dates and functions hold more beside them. An object inherits
from its prototype, that from its own, and so on.
-/
namespace Stepper.Machine

open Syntax

/-- A property: a value, or a pair of functions that give and take one. -/
inductive Slot where
  | value (v : Value)
  | accessor (getter setter : Option Ref)
  deriving Inhabited

/-- A function written in the program. -/
structure Closure where
  name : Text
  /-- None for a constructor that a class leaves out. -/
  node : Option Node
  scope : ScopeRef
  isArrow : Bool := false
  isMethod : Bool := false
  isClassConstructor : Bool := false
  isDerived : Bool := false
  home : Option Ref := none
  /-- Fields of a class, each with its initializer. -/
  fields : List (Text × Option Node) := []

/-- Two values are one key of a dictionary or set: as `===` has it, but NaN is one key. -/
inductive Key where
  | undefined
  | null
  | bool (b : Bool)
  /-- The integer of the bits; zero has one sign and NaN one pattern. -/
  | number (bits : Nat)
  | text (t : Text)
  | object (r : Ref)
  deriving DecidableEq, Repr

def Value.key : Value → Key
  | .undefined => .undefined
  | .null => .null
  | .bool b => .bool b
  | .number x =>
      .number
        (if x.isNaN then Binary64.nan else if x == 0 then Binary64.ofNat 0 else x).toBits.toNat
  | .text t => .text t
  | .object r => .object r

/-- What an object holds beside its properties. -/
inductive Content where
  | plain
  | array (elements : Array Value)
  | map (entries : OrderedMap Key (Value × Value))
  | set (entries : OrderedMap Key Value)
  | date (time : Float)
  | closure (c : Closure)
  | native (name : Text) (f : Native)
  deriving Inhabited

structure Object where
  proto : Option Ref := none
  isError : Bool := false
  frozen : Bool := false
  properties : OrderedMap Text Slot := []
  content : Content := .plain
  deriving Inhabited

/-- Digits of any kind, with no leading zero. -/
def isIndexKey (k : Text) : Bool :=
  !k.isEmpty && k.all Text.hasDigitValue && (k == [0x30] || k.head? != some 0x30)

/-- The index that a key stands for. -/
def arrayIndex? (k : Text) : Except Fault (Option Nat) :=
  if isIndexKey k then (Number.readInteger 10 k).map fun n => some n.toNat else .ok none

/-- The key of an index. -/
def indexKey (i : Nat) : Text := Number.natText 10 i

/-- Inserts a key before the first one with a greater index. -/
def insertByIndex (i : Nat) (k : Text) : List (Nat × Text) → List (Nat × Text)
  | [] => [(i, k)]
  | (j, l) :: ks => if i < j then (i, k) :: (j, l) :: ks else (j, l) :: insertByIndex i k ks

/-- Index keys in ascending order, then the others in theirs. -/
def orderedKeys (ks : List Text) : Except Fault (List Text) := do
  let indexed ← (ks.filter isIndexKey).mapM fun k => do
    return ((← Number.readInteger 10 k).toNat, k)
  let sorted := indexed.foldl (fun acc p => insertByIndex p.1 p.2 acc) []
  return sorted.map Prod.snd ++ ks.filter fun k => !isIndexKey k

namespace Object

def isArray (o : Object) : Bool := match o.content with
  | .array _ => true
  | _ => false

def isCallable (o : Object) : Bool := match o.content with
  | .closure _ | .native _ _ => true
  | _ => false

def elements (o : Object) : Array Value := match o.content with
  | .array es => es
  | _ => #[]

/-- Replaces the elements of an array. -/
def withElements (o : Object) (es : Array Value) : Object := match o.content with
  | .array _ => { o with content := .array es }
  | _ => o

/-- The name of a function. -/
def functionName (o : Object) : Text := match o.content with
  | .closure c => c.name
  | .native name _ => name
  | _ => []

def ownKeys (o : Object) : Except Fault (List Text) := do
  let named ← orderedKeys o.properties.keys
  match o.content with
  | .array es => return (List.range es.size).map indexKey ++ named
  | _ => return named

def hasOwn (o : Object) (k : Text) : Except Fault Bool := do
  match o.content with
  | .array es =>
    match ← arrayIndex? k with
    | some i => return i < es.size
    | none => return k == Text.ofString "length" || o.properties.has k
  | _ => return o.properties.has k

end Object

structure Heap where
  objects : Array Object := #[]
  deriving Inhabited

namespace Heap

def get (h : Heap) (r : Ref) : Object := h.objects.getD r.index {}

def modify (h : Heap) (r : Ref) (f : Object → Object) : Heap := ⟨h.objects.modify r.index f⟩

def alloc (h : Heap) (o : Object) : Ref × Heap := (⟨h.objects.size⟩, ⟨h.objects.push o⟩)

/-- Asks the objects of a chain of prototypes in turn, until one answers. No chain is longer than
there are objects, but for one that starts at none of them. -/
def climb {α : Type} (h : Heap) (ask : Ref → Option α) (otherwise : α) : Nat → Option Ref → α
  | 0, _ | _, none => otherwise
  | n + 1, some r => match ask r with
    | some a => a
    | none => h.climb ask otherwise n (h.get r).proto

@[simp] theorem climb_none {α : Type} (h : Heap) (ask : Ref → Option α) (otherwise : α) (n : Nat) :
    h.climb ask otherwise n none = otherwise := by cases n <;> rfl

/-- Asks all objects of a chain. -/
def walk {α : Type} (h : Heap) (ask : Ref → Option α) (otherwise : α) (r : Option Ref) : α :=
  h.climb ask otherwise (h.objects.size + 1) r

/-- The slot of a key, if the object itself has it. -/
def askSlot (h : Heap) (k : Text) (r : Ref) : Option (Option Slot) :=
  ((h.get r).properties.get? k).map some

/-- Whether the object itself has a property, if so. -/
def askOwn (h : Heap) (k : Text) (r : Ref) : Option (Except Fault Bool) :=
  match (h.get r).hasOwn k with
  | .ok false => none
  | x => some x

def askError (h : Heap) (r : Ref) : Option Bool :=
  if (h.get r).isError then some true else none

def askSame (p r : Ref) : Option Bool := if r == p then some true else none

/-- The slot of a key, on the object or the nearest object it inherits from. -/
def lookup (h : Heap) (k : Text) (r : Ref) : Option Slot := h.walk (h.askSlot k) none (some r)

def hasProperty (h : Heap) (k : Text) (r : Ref) : Except Fault Bool :=
  h.walk (h.askOwn k) (.ok false) (some r)

/-- Whether an object inherits from `p`. -/
def inherits (h : Heap) (p : Ref) (r : Ref) : Bool := h.walk (askSame p) false (h.get r).proto

/-- Whether an object or one that it inherits from is an error. -/
def isError (h : Heap) (r : Ref) : Bool := h.walk h.askError false (some r)

def isCallable (h : Heap) : Value → Bool
  | .object r => (h.get r).isCallable
  | _ => false

def isArray (h : Heap) : Value → Bool
  | .object r => (h.get r).isArray
  | _ => false

/-- What `typeof` gives. -/
def typeOf (h : Heap) : Value → String
  | .undefined => "undefined"
  | .null => "object"
  | .bool _ => "boolean"
  | .number _ => "number"
  | .text _ => "string"
  | .object r => if (h.get r).isCallable then "function" else "object"

/-- The tag of a captured value. -/
def typeTag (h : Heap) : Value → String
  | .null => "null"
  | v => h.typeOf v

end Heap
end Stepper.Machine
