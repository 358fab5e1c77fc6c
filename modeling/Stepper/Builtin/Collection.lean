import Stepper.Builtin.Basic

/-!
Dictionaries and sets. A dictionary keeps the key that was set last, a set the one that was added
first.
-/
namespace Stepper.Builtin

open Machine Machine.Action

abbrev MapEntries := OrderedMap Key (Value × Value)
abbrev SetEntries := OrderedMap Key Value

/-- The dictionary that a method is called on. -/
def thisMap (this : Value) (method : String) : Action (Ref × MapEntries) := do
  match this with
  | .object r =>
    match (← object r).content with
    | .map entries => return (r, entries)
    | _ => wrongReceiver
  | _ => wrongReceiver
where
  wrongReceiver : Action (Ref × MapEntries) :=
    typeError
      (Text.ofString ("Method Map.prototype." ++ method ++ " called on incompatible receiver"))

def thisSet (this : Value) (method : String) : Action (Ref × SetEntries) := do
  match this with
  | .object r =>
    match (← object r).content with
    | .set entries => return (r, entries)
    | _ => wrongReceiver
  | _ => wrongReceiver
where
  wrongReceiver : Action (Ref × SetEntries) :=
    typeError
      (Text.ofString ("Method Set.prototype." ++ method ++ " called on incompatible receiver"))

def setContent (r : Ref) (c : Content) : Action Unit := update r fun o => { o with content := c }

/-- A value is added only if no equal one is there. -/
def addToSet (entries : SetEntries) (v : Value) : SetEntries :=
  if entries.has v.key then entries else entries.set v.key v

def constructMap (args : List Value) (newTarget : Value) : Action Value := do
  let proto ← prototypeFor newTarget (← realm).mapProto
  let source := arg args 0
  let pairs ← if source.isNullish then pure []
    else collect (fun entry => do
      let k ← get entry "0"
      let v ← get entry "1"
      pure (k.key, (k, v))) (← iterate source)
  return .object (← alloc { proto := some proto, content := .map (OrderedMap.ofList pairs) })

def constructSet (args : List Value) (newTarget : Value) : Action Value := do
  let proto ← prototypeFor newTarget (← realm).setProto
  let source := arg args 0
  let values ← if source.isNullish then pure [] else iterate source
  return .object (← alloc { proto := some proto, content := .set (values.foldl addToSet []) })

def callMap (f : MapMethod) (this : Value) (args : List Value) : Action Value := do
  let k := arg args 0
  match f with
  | .get => return (((← thisMap this "get").2.get? k.key).map Prod.snd).getD .undefined
  | .set =>
    let (r, entries) ← thisMap this "set"
    setContent r (.map (entries.set k.key (k, arg args 1)))
    return this
  | .has => return .bool ((← thisMap this "has").2.has k.key)
  | .delete =>
    let (r, entries) ← thisMap this "delete"
    setContent r (.map (entries.erase k.key))
    return .bool (entries.has k.key)
  | .clear =>
    let (r, _) ← thisMap this "clear"
    setContent r (.map [])
    return .undefined
  | .forEach =>
    callback k
    let (_, entries) ← thisMap this "forEach"
    each (fun (p : Value × Value) => do
      let _ ← call k (arg args 1) [p.2, p.1, this]) entries.values
    return .undefined
  | .keys => newArray ((← thisMap this "keys").2.values.map Prod.fst)
  | .values => newArray ((← thisMap this "values").2.values.map Prod.snd)
  | .entries =>
    let _ ← thisMap this "entries"
    newArray (← iterate this)
  | .size => return natValue (← thisMap this "size").2.length

def callSet (f : SetMethod) (this : Value) (args : List Value) : Action Value := do
  let v := arg args 0
  match f with
  | .add =>
    let (r, entries) ← thisSet this "add"
    setContent r (.set (addToSet entries v))
    return this
  | .has => return .bool ((← thisSet this "has").2.has v.key)
  | .delete =>
    let (r, entries) ← thisSet this "delete"
    setContent r (.set (entries.erase v.key))
    return .bool (entries.has v.key)
  | .clear =>
    let (r, _) ← thisSet this "clear"
    setContent r (.set [])
    return .undefined
  | .forEach =>
    callback v
    let (_, entries) ← thisSet this "forEach"
    each (fun x => do
      let _ ← call v (arg args 1) [x, x, this]) entries.values
    return .undefined
  | .values | .keys => newArray (← thisSet this "values").2.values
  | .entries =>
    newArray (← collect (fun x => newArray [x, x]) (← thisSet this "entries").2.values)
  | .size => return natValue (← thisSet this "size").2.length

end Stepper.Builtin
