import Stepper.Proofs.Persistence
import Stepper.Proofs.Written

/-!
Frozen objects. What is frozen stays frozen to the end of the run and keeps its own property names
in their order. An assignment to a frozen object, a deletion from it and a copy into it leave it as
it is, and the methods that change an array refuse one that is frozen. Fields of a class do not look
at the flag: they are put on whatever object the constructor of the parent class gives.
-/
namespace Stepper.Machine

variable {α β σ : Type} {r : Ref} {w v : World}

def World.Frozen (w : World) (r : Ref) : Prop := (w.heap.get r).frozen = true

instance : Decidable (w.Frozen r) := inferInstanceAs (Decidable (_ = true))

/-- The names of the properties that an object has itself. -/
def World.names (w : World) (r : Ref) : List Text := (w.heap.get r).properties.keys

/-- There are no frozen objects beyond those that were made. -/
theorem World.Frozen.lt (hr : w.Frozen r) : r.index < w.heap.objects.size := by
  refine Nat.lt_of_not_le fun hge => ?_
  have hget : w.heap.get r = {} := by
    simp [Heap.get, Array.getD_eq_getD_getElem?, Array.getElem?_eq_none hge]
  simp [World.Frozen, hget] at hr

theorem World.Evolves.frozen (h : w.Evolves v) (hr : w.Frozen r) : v.Frozen r :=
  (h.heap.object r hr.lt).frozen hr

theorem World.Evolves.names (h : w.Evolves v) (hr : w.Frozen r) : w.names r <+: v.names r :=
  (h.heap.object r hr.lt).keys hr

namespace Action

theorem ite_apply {p : Prop} [Decidable p] (hp : p) (x y : Action α) (c : Context) (w : World) :
    (if p then x else y) c w = x c w := congrFun (congrFun (if_pos hp) c) w

theorem set_of_frozen (hr : w.Frozen r) (k : Text) (a : Value) (c : Context) :
    Action.set (.object r) k a c w = .done () w := by
  change (if (w.heap.get r).frozen = true then (pure () : Action Unit) else _) c w = _
  exact ite_apply hr ..

theorem delete_of_frozen (hr : w.Frozen r) (k : Text) (c : Context) :
    Action.delete (.object r) k c w = .done () w := by
  change (if (w.heap.get r).frozen = true then (pure () : Action Unit) else _) c w = _
  exact ite_apply hr ..

end Action
end Stepper.Machine

namespace Stepper.Builtin

open Machine Machine.Action

variable {α : Type} {r : Ref} {w : World}

/-- What is frozen is frozen from then on, with the properties and elements that it has. -/
theorem callObject_freeze (this : Value) (args : List Value) (c : Context)
    (hr : r.index < w.heap.objects.size) :
    (callObject .freeze this (.object r :: args) c w).Ends fun a v => a = .object r ∧
      v.heap.get r = { w.heap.get r with frozen := true } := by
  refine ⟨rfl, ?_⟩
  simp [Heap.get, Heap.modify, Array.getD_eq_getD_getElem?, Array.getElem_modify, hr]

/-- What an array method says that meets a frozen array. -/
def notExtensible : Interrupt :=
  .raised .typeError "Cannot add property, object is not extensible"

/-- The methods that change the array they are called on. -/
def mutators : List ArrayFunction :=
  [.push, .pop, .shift, .unshift, .splice, .reverse, .sort, .fill]

theorem writableArray_of_frozen (harray : (w.heap.get r).isArray = true) (hr : w.Frozen r)
    (method : String) (f : Ref → Action α) (c : Context) :
    (writableArray (.object r) method >>= f) c w = .broke notExtensible w := by
  have hwritable : writableArray (.object r) method c w = .broke notExtensible w := by
    change (thisArray (.object r) method c w).bind _ = _
    rw [thisArray_eq harray method]
    change (if (w.heap.get r).frozen = true then (_ : Action Ref) else _) c w = _
    exact (ite_apply hr ..).trans rfl
  change (writableArray (.object r) method c w).bind _ = _
  rw [hwritable]
  rfl

/-- A method that changes arrays refuses a frozen one, whatever its arguments are. -/
theorem callArray_of_frozen {f : ArrayFunction} (hf : f ∈ mutators)
    (harray : (w.heap.get r).isArray = true) (hr : w.Frozen r) (args : List Value) (c : Context) :
    callArray f (.object r) args c w = .broke notExtensible w := by
  cases f <;> first
    | exact absurd hf (by decide)
    | exact writableArray_of_frozen harray hr _ _ c

section

variable {c : Context} (hc : c.inner.Obeys fun w x => x.Evolves w)

/-- Copies the properties of one source. -/
def copy (target source : Value) : Action Unit := do
  if !source.isNullish then
    each (fun k => do set target k (← get source k)) (← enumerableKeys source)

/-- Does all of that but to set what was read. -/
def readAll (source : Value) : Action Unit := do
  if !source.isNullish then
    each (fun k => do let _ ← get source k) (← enumerableKeys source)

theorem composed_copy (target source : Value) : (copy target source).Composed .all {} :=
  composed_ite (.bind (composed_enumerableKeys source) fun keys => composed_each
    (fun k => .bind (composed_get k source) fun _ => composed_set ..) keys) (composed_pure ())

include hc

theorem copy_of_frozen (source : Value) (hr : w.Frozen r) :
    copy (.object r) source c w = readAll source c w := by
  -- What the getters of the source do in between does not thaw the target.
  have hkey (k : Text) (v : World) (hv : v.Frozen r) :
      (get source k >>= fun a => set (.object r) k a) c v =
        (get source k >>= fun _ => (pure () : Action Unit)) c v :=
    ((composed_get k source).evolves hc v).ends.bind_congr fun a u hu =>
      set_of_frozen (hu.frozen hv) k a c
  have hevolves (k : Text) (v : World) :
      ((get source k >>= fun a => set (.object r) k a) c v).Evolves v :=
    Composed.evolves (.bind (composed_get k source) fun _ => composed_set ..) hc v
  unfold copy readAll
  cases source.isNullish with
  | true => rfl
  | false =>
    exact ((composed_enumerableKeys source).evolves hc w).ends.bind_congr fun keys v hv =>
      each_congr (fun _ _ => World.Evolves.frozen) hevolves hkey keys (hv.frozen hr)

/-- A copy into a frozen object reads its sources, and that is all. -/
theorem assignAll_of_frozen (sources : List Value) (hr : w.Frozen r) :
    assignAll (.object r) sources c w = each readAll sources c w :=
  each_congr (fun _ _ => World.Evolves.frozen)
    (fun source v => (composed_copy (.object r) source).evolves hc v)
    (fun source _ hv => copy_of_frozen hc source hv) sources hr

end

end Stepper.Builtin

namespace Stepper.Machine.Action

open Syntax

variable {f this : Ref} {k : Closure} {c : Context} {w : World}

/-- Gives an object one field of a class. -/
def initializeField (f this : Ref) (k : Closure) (field : Text × Option Node) : Action Unit := do
  let e ← allocScope
    { parent := some k.scope, hasThis := true, this := some (.object this), function := some f,
      home := k.home }
  let v ← match field.2 with
    | none => pure .undefined
    | some n => evalNamed n e field.1
  define this field.1 v

theorem initializeFields_of_closure (hf : closureOf? (w.heap.get f) = some k) :
    initializeFields f this c w = each (initializeField f this k) k.fields c w := by
  have hlook (g : Object → Action Unit) : (object f >>= g) c w = g (w.heap.get f) c w := rfl
  unfold initializeFields
  rw [hlook]
  simp only [hf]
  rfl

theorem composed_initializeField (field : Text × Option Node) :
    (initializeField f this k field).Composed .all {} := by
  refine .bind (composed_allocScope _) fun e => ?_
  cases field.2 with
  | none => exact composed_define ..
  | some n =>
    exact .bind (composed_evalNamed e _ (Means.expression_all n)) fun _ => composed_define ..

/-- To define a property does not look at the flag. -/
theorem define_names {r : Ref} (hr : r.index < w.heap.objects.size) (name : Text) (a : Value) :
    (define r name a c w).Ends fun _ v => name ∈ v.names r := by
  have hget : (w.heap.modify r fun o =>
      { o with properties := o.properties.set name (.value a) }).get r =
        { w.heap.get r with properties := (w.heap.get r).properties.set name (.value a) } := by
    simp [Heap.get, Heap.modify, Array.getD_eq_getD_getElem?, Array.getElem_modify, hr]
  change name ∈ OrderedMap.keys ((w.heap.modify r _).get r).properties
  rw [hget]
  exact OrderedMap.mem_keys_set ..

theorem initializeField_of_frozen (hc : c.inner.Obeys fun w x => x.Evolves w)
    (field : Text × Option Node) (hthis : w.Frozen this) :
    (initializeField f this k field c w).Ends fun _ v => field.1 ∈ v.names this := by
  have hdefine (e : ScopeRef) (v : World) (hv : v.Frozen this) :
      ((do
        let a ← match field.2 with
          | none => pure .undefined
          | some n => evalNamed n e field.1
        define this field.1 a : Action Unit) c v).Ends fun _ v => field.1 ∈ v.names this := by
    cases field.2 with
    | none => exact define_names (c := c) hv.lt field.1 .undefined
    | some n =>
      have hvalue := (composed_evalNamed e field.1 (Means.expression_all n)).evolves hc v
      exact hvalue.ends.bind fun a u hu => define_names (hu.frozen hv).lt field.1 a
  exact ((composed_allocScope _).evolves hc w).ends.bind fun e v hv => hdefine e v (hv.frozen hthis)

/-- A frozen object is given every field of a class. So it has more names then, unless the fields
are named as properties that it has already. -/
theorem initializeFields_of_frozen (hc : c.inner.Obeys fun w x => x.Evolves w)
    (hf : closureOf? (w.heap.get f) = some k) (hthis : w.Frozen this) :
    (initializeFields f this c w).Ends fun _ v => ∀ field ∈ k.fields, field.1 ∈ v.names this := by
  have hevolves (field : Text × Option Node) (v : World) :
      (initializeField f this k field c v).Evolves v :=
    (composed_initializeField field).evolves hc v
  rw [initializeFields_of_closure hf]
  have hall := each_ends (Q := fun field v => v.Frozen this ∧ field.1 ∈ v.names this)
    (fun _ _ => World.Evolves.frozen) (fun field v u hu hv =>
      ⟨hu.frozen hv.1, (hu.names hv.1).subset hv.2⟩) hevolves
    (fun field v hv => ((hevolves field v).ends.and (initializeField_of_frozen hc field hv)).imp
      fun _ u hu => ⟨hu.1.frozen hv, hu.2⟩) k.fields hthis
  exact hall.imp fun _ v hv field hfield => (hv field hfield).2

end Stepper.Machine.Action

namespace Stepper.Execution

open Syntax Machine Action

variable {σ : Type}

/-- What is frozen when the host is told something is frozen when the program ends, whatever the
host replies from then on, and has the names it had before all others that it may have got. -/
theorem frozen_to_the_end {p : Program} {wantsText : Bool} {call : Call} {w : World}
    {next : Reply → Course Unit} (h : (course p wantsText).Rest (.tell call w next)) {r : Ref}
    (hr : w.Frozen r) (host : Host σ) (reply : Reply) (s : σ) :
    ((next reply).drive host s).1.world.Frozen r ∧
      w.names r <+: ((next reply).drive host s).1.world.names r := by
  obtain ⟨-, hnext⟩ := (course_evolves p wantsText).rest h
  have hend : w.Evolves ((next reply).drive host s).1.world := (hnext reply).drive host s
  exact ⟨hend.frozen hr, hend.names hr⟩

/-- The flag does not keep a class from its fields: when they have been initialised on a frozen
object, whatever the initializers did and the host replied, it has all of them. -/
theorem frozen_has_fields {c : Context} {source : String} {wantsText : Bool} {levels : Nat}
    (hc : c.inner = evaluator source wantsText levels) {f this : Ref} {k : Closure} {w v : World}
    (hf : closureOf? (w.heap.get f) = some k) (hthis : w.Frozen this) (host : Host σ) {s t : σ}
    (hrun : (initializeFields f this c w).drive host s = (.done () v, t)) :
    v.Frozen this ∧ ∀ field ∈ k.fields, field.1 ∈ v.names this := by
  have hevolves : c.inner.Obeys fun w x => x.Evolves w := hc ▸ evaluator_evolves ..
  have hfields := (initializeFields_of_frozen hevolves hf hthis).drive host hrun
  have hend := ((composed_initializeFields f this).evolves hevolves w).drive host s
  rw [hrun] at hend
  exact ⟨hend.frozen hthis, hfields⟩

end Stepper.Execution
