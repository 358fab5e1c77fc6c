import Stepper.Builtin.Array
import Stepper.Proofs.Grounding.Sort
import Stepper.Proofs.Grounding.Statement
import Stepper.Proofs.Written

/-!
The functions of objects, of functions and of arrays are grounded.
-/
namespace Stepper.Builtin

open Machine Machine.Action

variable {n : Horizon}

/-- A missing argument is undefined, and the others are known. -/
@[grind ←] theorem known_arg {args : List Value} (h : Known n args) (i : Nat) :
    Known n (arg args i) := known_getD (known_list_getElem? h i) known_undefined

@[grind ←] theorem known_natValue (k : Nat) : Known n (natValue k) := known_of_refs rfl
@[grind ←] theorem known_intValue (k : Int) : Known n (intValue k) := known_of_refs rfl

/-- A callback is known to be callable before anything is called. -/
@[grind ←] theorem grounded_callback {f : Value} (hf : Known n f) : (callback f).Grounded n := by
  unfold callback
  grind

/-- A position is a number, made without running code. -/
@[grind ←] theorem grounded_position (v : Value) (length default : Nat) :
    (position v length default).Grounded n := by
  unfold position
  grind

section

variable {args : List Value} (hargs : Known n args) {this v newTarget : Value}

/-- The values of an object are read from it. -/
@[grind ←] theorem grounded_valuesOf (hv : Known n v) : (valuesOf v).Grounded n := by
  unfold valuesOf
  grind

@[grind ←] theorem grounded_entriesOf (hv : Known n v) : (entriesOf v).Grounded n := by
  unfold entriesOf
  grind

/-- Properties are read from known sources and written to a known target. -/
@[grind ←] theorem grounded_assignAll (hv : Known n v) {sources : List Value}
    (hs : Known n sources) : (assignAll v sources).Grounded n := by
  unfold assignAll
  grind

/-- The entries of a new object are read from known pairs. -/
@[grind ←] theorem grounded_fromEntries (v : Value) : (fromEntries v).Grounded n := by
  unfold fromEntries
  refine .bind grounded_newObject fun _ r _ _ => .bind (grounded_iterate v) fun _ entries _ _ =>
    .bind (grounded_each (by grind) fun _ entry _ _ => ?_) fun _ _ _ _ => ?_
  · grind
  · grind

@[grind ←] theorem grounded_textHasOwn (t k : Text) : (textHasOwn t k).Grounded n := by
  unfold textHasOwn
  grind

include hargs

/-- Functions of objects hand out what known objects refer to. -/
@[grind ←] theorem grounded_callObject (f : ObjectFunction) (hthis : Known n this) :
    (callObject f this args).Grounded n := by
  have hfreeze (r : Ref) (m : Horizon) : (update r fun o => { o with frozen := true }).Grounded m :=
    grounded_update (f := fun o => { o with frozen := true }) (fun _ _ _ h => h) (fun _ => rfl) r
  have hfirst := known_arg hargs 0
  unfold callObject
  cases f with
  | getPrototypeOf =>
    dsimp only
    split
    · refine .bind (grounded_object _) fun m o _ ho => grounded_pure ?_
      have hproto := ho.proto
      cases hp : o.proto <;> grind
    · grind
    · grind
  | _ => grind

/-- A new object refers to its prototype only. -/
@[grind ←] theorem grounded_constructObject (hnew : Known n newTarget) :
    (constructObject args newTarget).Grounded n := by
  have hfirst := known_arg hargs 0
  unfold constructObject
  grind

/-- A bound function refers to its target, its receiver and its first arguments. -/
@[grind ←] theorem grounded_bindFunction {f : Value} (hf : Known n f) (hthis : Known n this) :
    (bindFunction f this args).Grounded n := by
  unfold bindFunction
  grind

omit hargs in
@[grind ←] theorem grounded_functionText (f : Value) : (functionText f).Grounded n := by
  unfold functionText
  cases f with
  | object r =>
    refine .bind (grounded_object r) fun _ o _ _ => ?_
    cases o.content <;> grind
  | _ => grind

/-- Methods of functions call their known receiver. -/
@[grind ←] theorem grounded_callFunction (f : FunctionMethod) (hthis : Known n this) :
    (callFunction f this args).Grounded n := by
  unfold callFunction
  grind

end

section

variable {args : List Value} (hargs : Known n args) {this v newTarget : Value} {r : Ref}

/-- A receiver that is an array is handed on. -/
@[grind ←] theorem grounded_thisArray (hthis : Known n this) (method : String) :
    (thisArray this method).Grounded n := by
  have hno (m : Horizon) : (thisArray.notArray method).Grounded m := grounded_typeError _
  unfold thisArray
  grind

@[grind ←] theorem grounded_writableArray (hthis : Known n this) (method : String) :
    (writableArray this method).Grounded n := by
  unfold writableArray
  grind

@[grind ←] theorem grounded_elementsOf (r : Ref) : (elementsOf r).Grounded n := by
  unfold elementsOf
  grind

@[grind ←] theorem grounded_lengthOf (r : Ref) : (lengthOf r).Grounded n := by
  unfold lengthOf
  grind

@[grind ←] theorem grounded_arrayLength (x : Float) : (arrayLength x).Grounded n := by
  unfold arrayLength
  grind

/-- The elements of a new array are the arguments, or nothing. -/
@[grind ←] theorem grounded_arrayElements (hargs : Known n args) :
    (arrayElements args).Grounded n := by
  unfold arrayElements
  grind

/-- An array is made before its prototype is asked for, and nobody knows of it until then. -/
@[grind ←] theorem grounded_constructArray (hargs : Known n args) (hnew : Known n newTarget) :
    (constructArray args newTarget).Grounded n := by
  unfold constructArray
  refine .bind (grounded_arrayElements hargs) fun m es hm hes => .bind grounded_realm fun k realm hk _ => ?_
  refine grounded_alloc_setProto (x := do prototypeFor newTarget (← Action.realm).arrayProto)
    (by grind) fun l hl => ?_
  grind

/-- What is read from the indices of a known object is known. -/
@[grind ←] theorem grounded_indexedMembers (hv : Known n v) : (indexedMembers v).Grounded n := by
  unfold indexedMembers
  grind

@[grind ←] theorem grounded_membersOf (hv : Known n v) : (membersOf v).Grounded n := by
  unfold membersOf
  grind

/-- The elements of a new array are members of a known value or what a mapper makes of them. -/
@[grind ←] theorem grounded_arrayFrom (hv : Known n v) {mapper : Value} (hm : Known n mapper) :
    (arrayFrom v mapper).Grounded n := by
  unfold arrayFrom
  refine .bind (grounded_membersOf hv) fun m items _ hitems => ?_
  split
  · exact grounded_newArray hitems
  · refine .bind (grounded_callback (by grind)) fun m _ _ _ =>
      .bind (grounded_collect (known_zipIdx (by grind) 0) fun m p _ hp => ?_) fun m mapped _ h =>
        grounded_newArray h
    exact grounded_call (by grind) known_undefined (by grind)

/-- A callback is called with elements of an array, and each step keeps what it has gathered known.
-/
@[grind ←] theorem grounded_overElements {α β : Type} [Refers α] [Refers β] (hr : Known n r)
    {f thisArg : Value} (hf : Known n f) (hthis : Known n thisArg) {start : α}
    (hstart : Known n start) {step : α → Nat → Value → Value → α ⊕ β}
    (hstep : ∀ m s i v a, Later n m → Known m s → Known m v → Known m a → Known m (step s i v a))
    {finish : α → β} (hfinish : ∀ m s, Later n m → Known m s → Known m (finish s)) :
    (overElements r f thisArg start step finish).Grounded n := by
  unfold overElements
  refine grounded_repeating (known_pair.mpr ⟨known_plain n 0, hstart⟩) fun m s hm hs => ?_
  refine .bind (grounded_elementsOf r) fun m es _ hes => ?_
  cases hv : es[s.1]? with
  | none => exact grounded_pure (by grind)
  | some v =>
    have hv : Known m v := known_option.mp (known_getElem? hes s.1) v hv
    refine .bind (grounded_call (by grind) (by grind) (by grind)) fun m answer _ ha => ?_
    have hnext := hstep m s.2 s.1 v answer (by grind) (by grind) (by grind) ha
    grind

section

include hargs

/-- A new array holds what the callback returned. -/
@[grind ←] theorem grounded_mapElements (hr : Known n r) : (mapElements r args).Grounded n := by
  unfold mapElements
  grind

/-- The element that is found is one of the array. -/
@[grind ←] theorem grounded_findElement (hr : Known n r) : (findElement r args).Grounded n := by
  unfold findElement
  grind

@[grind ←] theorem grounded_someAnswer (hr : Known n r) (truth : Bool) :
    (someAnswer r args truth).Grounded n := by
  unfold someAnswer
  grind

end

/-- What elements are folded to is known at each call of the callback. -/
@[grind ←] theorem grounded_reduceOver (hr : Known n r) {f accumulator : Value} (hf : Known n f)
    (ha : Known n accumulator) (indices : List Nat) :
    (reduceOver r f accumulator indices).Grounded n := by
  unfold reduceOver
  refine grounded_repeating (by grind) fun m s hm hs => ?_
  have hs := known_prod.mp hs
  cases s.2 with
  | nil => exact grounded_pure (by grind)
  | cons i is =>
    refine .bind (grounded_elementsOf r) fun m es _ hes => ?_
    cases hv : es[i]? with
    | none => exact grounded_pure (by grind)
    | some v =>
      have hv : Known m v := known_option.mp (known_getElem? hes i) v hv
      exact .bind (grounded_call (by grind) (by grind) (by grind)) fun m acc _ _ =>
        grounded_pure (by grind)

@[grind ←] theorem grounded_reduce (hr : Known n r) (hargs : Known n args) (indices : List Nat) :
    (reduce r args indices).Grounded n := by
  unfold reduce
  grind

/-- Elements are made texts by code they refer to. -/
@[grind ←] theorem grounded_joinElements (r : Ref) (sep : Text) :
    (joinElements r sep).Grounded n := by
  unfold joinElements
  grind

@[grind ←] theorem grounded_joinArray (hthis : Known n this) (hv : Known n v) :
    (joinArray this v).Grounded n := by
  unfold joinArray
  grind

mutual

/-- The members of a flattened list are members of known arrays. -/
theorem known_of_flatten {h : Heap} (hh : Known n h) (depth : Float) (room : Nat)
    {vs us : List Value} (hvs : Known n vs) (hus : flatten h depth room vs = .ok us) :
    Known n us := by
  cases room with
  | zero => simp [flatten] at hus
  | succ room =>
    rw [flatten] at hus
    exact known_of_flattenAll hh depth room hvs hus
termination_by (room, 0)

theorem known_of_flattenAll {h : Heap} (hh : Known n h) (depth : Float) (room : Nat)
    {vs us : List Value} (hvs : Known n vs) (hus : flattenAll h depth room vs = .ok us) :
    Known n us := by
  cases vs with
  | nil =>
    unfold flattenAll at hus
    cases hus
    exact known_nil
  | cons v vs =>
    unfold flattenAll at hus
    extract_lets rest at hus
    have hvs := known_cons.mp hvs
    have hrest (opened) (ho : Known n opened) (h : rest opened = .ok us) : Known n us := by
      obtain ⟨more, hmore, h⟩ := exists_of_bind h
      cases h
      exact known_append.mpr ⟨ho, known_of_flattenAll hh depth room hvs.2 hmore⟩
    have hself : Known n [v] := known_cons.mpr ⟨hvs.1, known_nil⟩
    cases v with
    | object r =>
      dsimp only at hus
      split at hus
      · obtain ⟨opened, ho, hus⟩ := exists_of_bind hus
        exact hrest opened (known_of_flatten hh (depth - 1) room (hh.get r).elements ho) hus
      · exact hrest _ hself hus
    | _ => exact hrest _ hself hus
termination_by (room, vs.length + 1)

end

@[grind ←] theorem grounded_flatten {h : Heap} (hh : Known n h) (depth : Float) (room : Nat)
    {vs : List Value} (hvs : Known n vs) :
    (Action.ofExcept (flatten h depth room vs)).Grounded n :=
  grounded_ofExcept fun _ => known_of_flatten hh depth room hvs

/-- Two known elements are compared by a known comparator. -/
@[grind ←] theorem grounded_goesBefore {comparator a b : Value} (hc : Known n comparator)
    (ha : Known n a) (hb : Known n b) : (goesBefore comparator a b).Grounded n := by
  unfold goesBefore
  grind

/-- The comparator may be asked about any two known elements. -/
theorem orders_goesBefore {comparator : Value} (hc : Known n comparator) :
    Sort.Orders n (goesBefore comparator) :=
  fun _ _ _ hm ha hb => grounded_goesBefore (hc.mono hm) ha hb

/-- The elements that are put back are those that were sorted. -/
@[grind ←] theorem grounded_sortArray (r : Ref) {comparator : Value} (hc : Known n comparator) :
    (sortArray r comparator).Grounded n := by
  have hsorted (m : Horizon) (h : Later n m) : (do
      let es := (← elementsOf r).toList
      let defined := es.filter fun v => !v.isUndefined
      let missing := es.length - defined.length
      let sorted ← Sort.sort (goesBefore comparator) defined
      setElements r fun _ => (sorted ++ List.replicate missing Value.undefined).toArray :
        Action Unit).Grounded m := by
    refine .bind (grounded_elementsOf r) fun m es _ hes => ?_
    extract_lets es defined missing
    refine .bind (Sort.grounded_sort (orders_goesBefore (by grind)) (by grind)) fun m sorted _ _ =>
      grounded_setElements r fun _ _ _ _ => ?_
    grind
  unfold sortArray
  grind

@[grind ←] theorem known_fillElements {es : Array Value} (hes : Known n es) (start stop : Nat)
    (hv : Known n v) : Known n (fillElements es start stop v) := by
  suffices h : ∀ (is : List Nat) (es : Array Value), Known n es →
      Known n (is.foldl (fun es i => es.setIfInBounds (start + i) v) es) from h _ es hes
  intro is
  induction is with
  | nil => exact fun es hes => hes
  | cons i is ih => exact fun es hes => ih _ (known_setIfInBounds hes hv (start + i))

/-- Methods of arrays hand out and store what their receiver and arguments refer to. -/
@[grind ←] theorem grounded_callArray (f : ArrayFunction) (hthis : Known n this)
    (hargs : Known n args) : (callArray f this args).Grounded n := by
  have hfirst := known_arg hargs 0
  have hsecond := known_arg hargs 1
  unfold callArray
  cases f with
  | splice =>
    refine .bind (grounded_writableArray hthis _) fun _ r _ _ =>
      .bind (grounded_lengthOf r) fun _ length _ _ =>
      .bind (grounded_position _ _ _) fun m start _ _ => ?_
    extract_lets rest
    have hrest (k : Horizon) (h : Later m k) (count) : (rest count).Grounded k := by
      refine .bind (grounded_elementsOf r) fun _ es _ _ =>
        .bind (grounded_setElements r fun _ es _ hes => ?_) fun _ _ _ _ => grounded_newArray ?_
      · grind
      · grind
    clear_value rest
    grind
  | concat =>
    refine .bind (grounded_thisArray hthis _) fun _ r _ _ =>
      .bind (grounded_elementsOf r) fun _ es _ hes => .bind grounded_heap fun _ h _ hh =>
      grounded_newArray (known_append.mpr ⟨by grind, known_flatMap fun v hv => ?_⟩)
    have hv : Known n v := known_list.mp hargs v hv
    cases v <;> grind
  | flat =>
    extract_lets rest
    have hrest (m : Horizon) (h : Later n m) (depth) : (rest depth).Grounded m := by
      refine .bind (grounded_thisArray (by grind) _) fun _ r _ _ =>
        .bind (grounded_elementsOf r) fun _ es _ hes => ?_
      grind
    clear_value rest
    grind
  | flatMap =>
    refine .bind (grounded_thisArray hthis _) fun _ r _ _ =>
      .bind (grounded_mapElements (by grind) (by grind)) fun _ mapped _ _ => ?_
    grind
  | _ => grind

end

end Stepper.Builtin
