import Stepper.Proofs.Composition.Basic
import Stepper.Builtin.Json

/-!
The stack of open objects. Whoever writes a value inside some objects may be given those objects, or
keep them on a stack: an object is put there when it is opened, and taken away when its inside has
been written, whatever became of that. Both come to the same, and each time a value has been written
the stack is what it was before.
-/
namespace Stepper.Machine

/-- Writes with a stack of open objects at hand. -/
abbrev Writing := ExceptT Interrupt (StateT (List Ref) Action)

namespace Course

variable {α β : Type}

/-- What a course came to, and a stack beside it. -/
def beside (stack : List Ref) (x : Course α) : Course (Except Interrupt α × List Ref) :=
  x.attempt.bind fun result w => .done (result, stack) w

end Course

namespace Writing

variable {α β : Type}

def lift (x : Action α) : Writing α := ExceptT.mk fun stack => do return (← x.attempt, stack)

/-- An object stays open until something has come to an end, however that ends. -/
def whileOpen (r : Ref) (x : Writing α) : Writing α := ExceptT.mk fun stack => do
  let (result, stack) ← x.run.run (r :: stack)
  return (result, stack.tail)

def loop (body : α → Writing (α ⊕ β)) : Nat → α → Writing β
  | 0, _ => lift (Action.fault .outOfFuel)
  | fuel + 1, a => do
    match ← body a with
    | .inl a => loop body fuel a
    | .inr b => return b

def collectRev (f : α → Writing β) : List α → List β → Writing (List β)
  | [], acc => pure acc
  | a :: as, acc => do collectRev f as ((← f a) :: acc)

def collect (f : α → Writing β) (as : List α) : Writing (List β) := do
  return (← collectRev f as []).reverse

/-- Comes to what is done inside the open objects, and leaves the stack as it is. -/
def Tidy (c : Context) (x : Writing α) (y : List Ref → Action α) : Prop :=
  ∀ stack w, x.run.run stack c w = (y stack c w).beside stack

namespace Tidy

variable {c : Context}

theorem pure (a : α) : Tidy c (Pure.pure a) fun _ => Pure.pure a := fun _ _ => rfl

theorem lift (x : Action α) : Tidy c (lift x) fun _ => x := fun _ _ => rfl

theorem bind {x : Writing α} {y : List Ref → Action α} {f : α → Writing β}
    {g : α → List Ref → Action β} (hx : Tidy c x y) (hf : ∀ a, Tidy c (f a) (g a)) :
    Tidy c (x >>= f) fun stack => y stack >>= fun a => g a stack := by
  intro stack w
  change (x.run.run stack c w).bind (fun p v => (ExceptT.bindCont f p.1).run p.2 c v) =
    ((y stack c w).bind fun a v => g a stack c v).beside stack
  rw [hx]
  induction y stack c w with
  | done a v => exact hf a stack v
  | broke i v => rfl
  | tell q v next ih => exact congrArg (Course.tell q v) (funext ih)

/-- The object is taken away again, and nothing else has changed. -/
theorem whileOpen {r : Ref} {x : Writing α} {y : List Ref → Action α} (hx : Tidy c x y) :
    Tidy c (whileOpen r x) fun stack => y (r :: stack) := by
  intro stack w
  change (x.run.run (r :: stack) c w).bind (fun p v => .done (p.1, p.2.tail) v) =
    (y (r :: stack) c w).beside stack
  rw [hx]
  induction y (r :: stack) c w with
  | done a v => rfl
  | broke i v => rfl
  | tell q v next ih => exact congrArg (Course.tell q v) (funext ih)

theorem loop {body : α → Writing (α ⊕ β)} {step : List Ref → α → Action (α ⊕ β)}
    (hbody : ∀ a, Tidy c (body a) fun stack => step stack a) (fuel : Nat) (a : α) :
    Tidy c (loop body fuel a) fun stack => Action.loop (step stack) fuel a := by
  induction fuel generalizing a with
  | zero => exact .lift _
  | succ fuel ih =>
    have hround := (hbody a).bind (f := fun x => match x with
      | .inl a => Writing.loop body fuel a
      | .inr b => Pure.pure b) (g := fun x stack => match x with
      | .inl a => Action.loop (step stack) fuel a
      | .inr b => Pure.pure b) fun x => by
        cases x with
        | inl a => exact ih a
        | inr b => exact .pure b
    intro stack w
    exact (hround stack w).trans (congrArg (fun x : Action β => (x c w).beside stack)
      (Action.loop_succ (step stack) fuel a).symm)

theorem collectRev {f : α → Writing β} {g : List Ref → α → Action β}
    (hf : ∀ a, Tidy c (f a) fun stack => g stack a) (as : List α) (acc : List β) :
    Tidy c (collectRev f as acc) fun stack => Action.collectRev (g stack) as acc := by
  induction as generalizing acc with
  | nil => exact .pure acc
  | cons a as ih =>
    have hrest := (hf a).bind fun b => ih (b :: acc)
    intro stack w
    exact (hrest stack w).trans (congrArg (fun x : Action (List β) => (x c w).beside stack)
      (Action.collectRev_cons (g stack) a as acc).symm)

theorem collect {f : α → Writing β} {g : List Ref → α → Action β}
    (hf : ∀ a, Tidy c (f a) fun stack => g stack a) (as : List α) :
    Tidy c (collect f as) fun stack => Action.collect (g stack) as :=
  (collectRev hf as []).bind fun bs => .pure bs.reverse

end Tidy
end Writing
end Stepper.Machine

namespace Stepper.Builtin

open Machine Machine.Action

namespace Stacked

/-- What writes a nested value. -/
abbrev Nested := Text → Value → Writing (Option Text)

def elements (nested : Nested) (indent unit_ : Text) (r : Ref) : Writing Text := do
  let items ← Writing.loop (fun s : Nat × List Text => do
    match (← Writing.lift (object r)).elements[s.1]? with
    | none => return .inr s.2.reverse
    | some v =>
      let t ← nested (indent ++ unit_) v
      return .inl (s.1 + 1, t.getD "null" :: s.2)) maxRounds (0, [])
  return wrapped "[" "]" indent unit_ items

def fields (nested : Nested) (indent unit_ : Text) (r : Ref) : Writing Text := do
  let separator : Text := if unit_.isEmpty then ":" else ": "
  let keys ← Writing.lift (fieldKeys r)
  let items ← Writing.collect (fun k => do
    let t ← nested (indent ++ unit_) (← Writing.lift (get (.object r) k))
    return t.map fun t => Text.quote k ++ separator ++ t) keys
  return wrapped "\x7b" "\x7d" indent unit_ (items.filterMap id)

/-- What is in an object that is open. -/
def inside (array record : Writing Text) (o : Object) : Writing (Option Text) := do
  if o.isArray then return some (← array) else return some (← record)

mutual

/-- Writes a value with the objects that are open on a stack, as far as there are frames. -/
def value (unit_ : Text) (frames : Nat) (indent : Text) (v : Value) : Writing (Option Text) :=
  match frames with
  | 0 => Writing.lift (fault .nestingTooDeep)
  | frames + 1 => do
    match ← Writing.lift (jsonForm v) with
    | .null => return some "null"
    | .undefined => return none
    | .bool b => return some (if b then "true" else "false")
    | .number x => return some (if x.isFinite then Number.text x else "null")
    | .text t => return some (Text.quote t)
    | .object r =>
      let o ← Writing.lift (object r)
      if o.isCallable then return none
      if (← get).contains r then
        Writing.lift (typeError "Converting circular structure to JSON")
      Writing.whileOpen r (inside (array unit_ frames indent r) (record unit_ frames indent r) o)

def array (unit_ : Text) (frames : Nat) (indent : Text) (r : Ref) : Writing Text :=
  match frames with
  | 0 | 1 => Writing.lift (fault .nestingTooDeep)
  | frames + 2 => elements (value unit_ frames) indent unit_ r

def record (unit_ : Text) (frames : Nat) (indent : Text) (r : Ref) : Writing Text :=
  match frames with
  | 0 => Writing.lift (fault .nestingTooDeep)
  | frames + 1 => fields (value unit_ frames) indent unit_ r

end

section

variable {unit_ : Text} {frames : Nat} {c : Context}
  (h : ∀ indent v, (value unit_ frames indent v).Tidy c
    fun stack => writeValue unit_ frames indent stack v)

include h

end

end Stacked
end Stepper.Builtin
