import Stepper.Builtin.Object
import Stepper.Builtin.Sort

/-!
The functions of arrays. A walk with a callback reads each element when its turn comes, so it sees
what the callback has changed.
-/
namespace Stepper.Builtin

open Machine Machine.Action

/-- The array that a method is called on. -/
def thisArray (this : Value) (method : String) : Action Ref := do
  match this with
  | .object r =>
    if (← object r).isArray then return r
    else notArray
  | _ => notArray
where
  notArray : Action Ref :=
    typeError (Text.ofString ("Array.prototype." ++ method ++ " called on non-array"))

/-- The array that a changing method is called on. -/
def writableArray (this : Value) (method : String) : Action Ref := do
  let r ← thisArray this method
  if (← object r).frozen then typeError "Cannot add property, object is not extensible"
  return r

def elementsOf (r : Ref) : Action (Array Value) := do return (← object r).elements

def lengthOf (r : Ref) : Action Nat := do return (← object r).elements.size

/-- The length of an array given by one number. -/
def arrayLength (x : Float) : Action Nat := do
  match (if x < 0 then none else Binary64.toInt? x) with
  | some n =>
    checkLength n.toNat
    return n.toNat
  | none => raise .rangeError "Invalid array length"

/-- The elements that `Array` gives for its arguments. -/
def arrayElements (args : List Value) : Action (List Value) := do
  match args with
  | [.number x] => return List.replicate (← arrayLength x) .undefined
  | args => return args

def constructArray (args : List Value) (newTarget : Value) : Action Value := do
  let es ← arrayElements args
  let r ← alloc { proto := some (← realm).arrayProto, content := .array es.toArray }
  let proto ← prototypeFor newTarget (← realm).arrayProto
  update r fun o => { o with proto := some proto }
  return .object r

/-- The members of something with a length. -/
def indexedMembers (v : Value) : Action (List Value) := do
  let n := (← toInteger (← get v "length")).toNat
  checkLength n
  collect (fun i => get v (indexKey i)) (List.range n)

def isMembered (o : Object) : Bool := match o.content with
  | .array _ | .map _ | .set _ => true
  | _ => false

def membersOf (v : Value) : Action (List Value) := do
  match v with
  | .object r => if isMembered (← object r) then iterate v else indexedMembers v
  | .undefined | .null => typeError ((← toText v) ++ (" is not iterable" : Text))
  | v => iterate v

def arrayFrom (source mapper : Value) : Action Value := do
  let items ← membersOf source
  if mapper.isUndefined then newArray items
  else
    callback mapper
    let mapped ← collect (fun (p : Value × Nat) =>
        call mapper .undefined [p.1, natValue p.2]) items.zipIdx
    newArray mapped

/-- Calls a function on the elements of an array in turn. `step` takes what was gathered, the index,
the element and the answer, and goes on or ends. -/
def overElements {α β : Type} (r : Ref) (f thisArg : Value) (start : α)
    (step : α → Nat → Value → Value → α ⊕ β) (finish : α → β) : Action β :=
  repeating (0, start) fun s => do
    match (← elementsOf r)[s.1]? with
    | none => return .inr (finish s.2)
    | some v =>
      let answer ← call f thisArg [v, natValue s.1, .object r]
      match step s.2 s.1 v answer with
      | .inl acc => return .inl (s.1 + 1, acc)
      | .inr b => return .inr b

/-- The answers of a function on the elements of an array. -/
def mapElements (r : Ref) (args : List Value) : Action (List Value) := do
  callback (arg args 0)
  overElements r (arg args 0) (arg args 1) [] (fun acc _ _ a => .inl (a :: acc)) List.reverse

/-- The first element with a true answer, and its index. -/
def findElement (r : Ref) (args : List Value) : Action (Option (Nat × Value)) := do
  callback (arg args 0)
  overElements r (arg args 0) (arg args 1) ()
    (fun _ i v a => if a.truth then .inr (some (i, v)) else .inl ()) fun _ => none

/-- Whether some answer has a truth value. -/
def someAnswer (r : Ref) (args : List Value) (truth : Bool) : Action Bool := do
  callback (arg args 0)
  overElements r (arg args 0) (arg args 1) ()
    (fun _ _ _ a => if a.truth == truth then .inr true else .inl ()) fun _ => false

def reduceOver (r : Ref) (f : Value) (accumulator : Value) (indices : List Nat) : Action Value :=
  repeating (accumulator, indices) fun s => do
    match s.2 with
    | [] => return .inr s.1
    | i :: is =>
      match (← elementsOf r)[i]? with
      | none => return .inl (s.1, is)
      | some v => return .inl (← call f .undefined [s.1, v, natValue i, .object r], is)

/-- Folds an array over some of its indices; without a start, the first of them gives it. -/
def reduce (r : Ref) (args : List Value) (indices : List Nat) : Action Value := do
  callback (arg args 0)
  match args with
  | _ :: start :: _ => reduceOver r (arg args 0) start indices
  | _ =>
    match indices with
    | [] => typeError "Reduce of empty array with no initial value"
    | i :: is => reduceOver r (arg args 0) ((← elementsOf r).getD i .undefined) is

/-- The texts of the elements, with nothing for null and undefined. -/
def joinElements (r : Ref) (sep : Text) : Action Text :=
  repeating (0, ([] : List Text)) fun s => do
    match (← elementsOf r)[s.1]? with
    | none => return .inr (Text.join sep s.2.reverse)
    | some v =>
      let t ← if v.isNullish then pure [] else toText v
      return .inl (s.1 + 1, t :: s.2)

def joinArray (this : Value) (separator : Value) : Action Value := do
  let sep ← if separator.isUndefined then pure (Text.ofString ",") else toText separator
  let r ← thisArray this "join"
  return .text (← joinElements r sep)

mutual
/-- Opens nested arrays down to some depth. -/
def flatten (h : Heap) (depth : Float) (room : Nat) (vs : List Value) : Except Fault (List Value) :=
  match room with
  | 0 => .error .nestingTooDeep
  | room + 1 => flattenAll h depth room vs
termination_by (room, 0)

def flattenAll (h : Heap) (depth : Float) (room : Nat) (vs : List Value) :
    Except Fault (List Value) :=
  match vs with
  | [] => .ok []
  | v :: vs => do
    let opened ← match v with
      | .object r =>
        let o := h.get r
        if o.isArray && depth >= 1 then flatten h (depth - 1) room o.elements.toList else .ok [v]
      | v => .ok [v]
    return opened ++ (← flattenAll h depth room vs)
termination_by (room, vs.length + 1)
end

/-- Whether one element goes before another. -/
def goesBefore (comparator a b : Value) : Action Bool := do
  if comparator.isUndefined then
    let s ← toText a
    let t ← toText b
    return Text.compare s t == .lt
  else
    let x ← toNumber (← call comparator .undefined [a, b])
    return x < 0

/-- Sorts the elements; undefined ones go to the end. -/
def sortArray (r : Ref) (comparator : Value) : Action Unit := do
  if !comparator.isUndefined then callback comparator
  let es := (← elementsOf r).toList
  let defined := es.filter fun v => !v.isUndefined
  let missing := es.length - defined.length
  let sorted ← Sort.sort (goesBefore comparator) defined
  setElements r fun _ => (sorted ++ List.replicate missing Value.undefined).toArray

def fillElements (es : Array Value) (start stop : Nat) (v : Value) : Array Value :=
  (List.range (stop - start)).foldl (fun es i => es.setIfInBounds (start + i) v) es

def callArray (f : ArrayFunction) (this : Value) (args : List Value) : Action Value := do
  match f with
  | .isArray => return .bool ((← heap).isArray (arg args 0))
  | .from_ => arrayFrom (arg args 0) (arg args 1)
  | .of_ => newArray args
  | .push =>
    let r ← writableArray this "push"
    setElements r fun es => es ++ args.toArray
    return natValue (← lengthOf r)
  | .pop =>
    let r ← writableArray this "pop"
    let v := (← elementsOf r).back?.getD .undefined
    setElements r Array.pop
    return v
  | .shift =>
    let r ← writableArray this "shift"
    let v := (← elementsOf r)[0]?.getD .undefined
    setElements r fun es => es.extract 1 es.size
    return v
  | .unshift =>
    let r ← writableArray this "unshift"
    setElements r fun es => args.toArray ++ es
    return natValue (← lengthOf r)
  | .slice =>
    let es ← elementsOf (← thisArray this "slice")
    let start ← position (arg args 0) es.size 0
    let stop ← position (arg args 1) es.size es.size
    newArray (es.extract start stop).toList
  | .splice =>
    let r ← writableArray this "splice"
    let n ← lengthOf r
    let start ← position (arg args 0) n 0
    let count ← match args with
      | _ :: c :: _ => do pure (min (max (← toInteger c) 0) (n - start)).toNat
      | _ => pure (n - start)
    let es ← elementsOf r
    let removed := es.extract start (start + count)
    setElements r fun es =>
      es.extract 0 start ++ (args.drop 2).toArray ++ es.extract (start + count) es.size
    newArray removed.toList
  | .concat =>
    let es ← elementsOf (← thisArray this "concat")
    let h ← heap
    let more := args.flatMap fun v => match v with
      | .object r => if h.isArray v then (h.get r).elements.toList else [v]
      | v => [v]
    newArray (es.toList ++ more)
  | .join => joinArray this (arg args 0)
  | .reverse =>
    let r ← writableArray this "reverse"
    setElements r Array.reverse
    return this
  | .indexOf =>
    let es ← elementsOf (← thisArray this "indexOf")
    let start ← position (arg args 1) es.size 0
    match (es.toList.drop start).findIdx? fun v => v.same (arg args 0) with
    | some i => return natValue (start + i)
    | none => return intValue (-1)
  | .lastIndexOf =>
    let es ← elementsOf (← thisArray this "lastIndexOf")
    match es.toList.reverse.findIdx? fun v => v.same (arg args 0) with
    | some i => return natValue (es.size - 1 - i)
    | none => return intValue (-1)
  | .includes =>
    let es ← elementsOf (← thisArray this "includes")
    return .bool (es.toList.any fun v => v.sameOrNaN (arg args 0))
  | .find => return ((← findElement (← thisArray this "find") args).map Prod.snd).getD .undefined
  | .findIndex =>
    match ← findElement (← thisArray this "findIndex") args with
    | some (i, _) => return natValue i
    | none => return intValue (-1)
  | .filter =>
    let r ← thisArray this "filter"
    callback (arg args 0)
    let kept ← overElements r (arg args 0) (arg args 1) []
      (fun acc _ v a => .inl (if a.truth then v :: acc else acc)) List.reverse
    newArray kept
  | .map => newArray (← mapElements (← thisArray this "map") args)
  | .forEach =>
    let _ ← mapElements (← thisArray this "forEach") args
    return .undefined
  | .some_ => return .bool (← someAnswer (← thisArray this "some") args true)
  | .every => return .bool !(← someAnswer (← thisArray this "every") args false)
  | .reduce =>
    let r ← thisArray this "reduce"
    reduce r args (List.range (← lengthOf r))
  | .reduceRight =>
    let r ← thisArray this "reduceRight"
    reduce r args (List.range (← lengthOf r)).reverse
  | .sort =>
    let r ← writableArray this "sort"
    sortArray r (arg args 0)
    return this
  | .flat =>
    let depth ← match arg args 0 with
      | .undefined => pure one
      | v => toNumber v
    let es ← elementsOf (← thisArray this "flat")
    newArray (← ofExcept (flatten (← heap) depth (← room) es.toList))
  | .flatMap =>
    let mapped ← mapElements (← thisArray this "flatMap") args
    newArray (← ofExcept (flatten (← heap) one (← room) mapped))
  | .fill =>
    let r ← writableArray this "fill"
    let n ← lengthOf r
    let start ← position (arg args 1) n 0
    let stop ← position (arg args 2) n n
    setElements r fun es => fillElements es start stop (arg args 0)
    return this
  | .at_ =>
    let r ← thisArray this "at"
    let i ← toInteger (arg args 0)
    let es ← elementsOf r
    let i := if i < 0 then i + es.size else i
    return if 0 ≤ i then es.getD i.toNat .undefined else .undefined
  | .keys =>
    let n ← lengthOf (← thisArray this "keys")
    newArray ((List.range n).map natValue)
  | .toString =>
    if (← heap).isArray this then joinArray this .undefined
    else return .ofString (objectTag (← heap) this)

end Stepper.Builtin
