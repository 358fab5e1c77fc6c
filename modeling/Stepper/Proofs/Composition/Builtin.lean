import Stepper.Builtin.Call
import Stepper.Proofs.Composition.Sort
import Stepper.Proofs.Composition.Statement

/-!
The built-in functions are composed, those that call back into the program included: none of them
looks at what a part came to, so whatever cuts a callback short cuts short the function that called
it.
-/
namespace Stepper.Builtin

open Syntax Machine Machine.Action

variable {K : Means} {u : Targets}

/-! ### Objects, functions and arrays -/

/-- A callback is asked whether it can be called, and no more. -/
@[grind ←] theorem composed_callback (f : Value) : (callback f).Composed K u := by
  refine .bind (composed_isCallable f) fun _ => composed_ite ?_ (composed_pure ())
  exact .bind (composed_toText f) fun _ => composed_typeError _

/-- A position is one conversion. -/
@[grind ←] theorem composed_position (v : Value) (length default : Nat) :
    (position v length default).Composed K u :=
  composed_ite (composed_pure default) (.bind (composed_plainInteger v) fun _ => composed_pure _)

section

variable (v f this : Value) (args : List Value)

/-- The values are read one key after the other. -/
@[grind ←] theorem composed_valuesOf : (valuesOf v).Composed K u :=
  .bind (composed_enumerableKeys v) fun _ => composed_collect (fun k => composed_get k v) _

@[grind ←] theorem composed_entriesOf : (entriesOf v).Composed K u :=
  .bind (composed_enumerableKeys v) fun _ => composed_collect
    (fun k => .bind (composed_get k v) fun _ => composed_newArray _) _

/-- Properties are read and written one after the other. -/
@[grind ←] theorem composed_assignAll (target : Value) (sources : List Value) :
    (assignAll target sources).Composed K u := by
  refine composed_each (fun source => composed_ite ?_ (composed_pure ())) sources
  exact .bind (composed_enumerableKeys source) fun _ => composed_each
    (fun k => .bind (composed_get k source) fun _ => composed_set ..) _

@[grind ←] theorem composed_fromEntries : (fromEntries v).Composed K u := by
  refine .bind composed_newObject fun r => .bind (composed_iterate v) fun entries =>
    .bind (composed_each (fun entry => ?_) entries) fun _ => composed_pure _
  exact .bind (composed_get ..) fun _ => .bind (composed_toKey _) fun _ =>
    .bind (composed_get ..) fun _ => composed_define ..

@[grind ←] theorem composed_textHasOwn (t k : Text) : (textHasOwn t k).Composed K u :=
  composed_ite (composed_pure true) (composed_ite (composed_pure false)
    (.bind (composed_ofExcept _) fun _ => composed_pure _))

/-- A plain object carries no closure. -/
@[grind ←] theorem composed_allocPlain (proto : Option Ref) :
    (alloc { proto }).Composed K u := composed_allocData (by nofun)

/-- Functions of objects are made of reads, writes and new objects. -/
@[grind ←] theorem composed_callObject (f : ObjectFunction) :
    (callObject f this args).Composed K u := by
  unfold callObject
  cases f with
  | freeze =>
    dsimp only
    cases arg args 0 with
    | object r =>
      exact .bind (composed_update r (fun _ h => h) fun _ =>
        ⟨rfl, fun _ => rfl, fun _ => List.prefix_rfl⟩) fun _ => composed_pure _
    | _ => exact composed_pure _
  | _ => grind

@[grind ←] theorem composed_constructObject (newTarget : Value) :
    (constructObject args newTarget).Composed K u := by
  unfold constructObject
  cases arg args 0 with
  | object r => exact composed_pure _
  | _ =>
    exact .bind .realm fun _ => .bind (composed_prototypeFor ..) fun _ =>
      .bind (composed_allocData (by nofun)) fun _ => composed_pure _

/-- A bound function is a new native one. -/
@[grind ←] theorem composed_bindFunction : (bindFunction f this args).Composed K u := by
  refine .bind (composed_callback f) fun _ => ?_
  cases f with
  | object r => exact .bind (composed_object r) fun _ => composed_newNative ..
  | _ => exact composed_fault _

@[grind ←] theorem composed_functionText : (functionText f).Composed K u := by
  cases f with
  | object r =>
    refine .bind (composed_object r) fun o => ?_
    obtain ⟨proto, isError, frozen, properties, content⟩ := o
    cases content with
    | closure c =>
      dsimp only
      cases c.node with
      | none => exact composed_pure _
      | some n => exact .bind (composed_textOf n) fun _ => composed_pure _
    | native name f => exact composed_pure _
    | _ => exact composed_typeError _
  | _ => exact composed_typeError _

/-- Methods of functions call their receiver. -/
@[grind ←] theorem composed_callFunction (f : FunctionMethod) :
    (callFunction f this args).Composed K u := by
  unfold callFunction
  grind

end

section

variable (this v f comparator : Value) (method : String) (r : Ref) (args : List Value)
    (indices : List Nat)

/-- The receiver is looked at, and refused if it is no array. -/
@[grind ←] theorem composed_thisArray : (thisArray this method).Composed K u := by
  cases this with
  | object r =>
    exact .bind (composed_object r) fun _ => composed_ite (composed_pure r) (composed_typeError _)
  | _ => exact composed_typeError _

@[grind ←] theorem composed_writableArray : (writableArray this method).Composed K u :=
  .bind (composed_thisArray this method) fun r => .bind (composed_object r) fun _ =>
    composed_ite (.bind (composed_typeError _) fun _ => composed_pure r) (composed_pure r)

@[grind ←] theorem composed_elementsOf : (elementsOf r).Composed K u :=
  .bind (composed_object r) fun _ => composed_pure _

@[grind ←] theorem composed_lengthOf : (lengthOf r).Composed K u :=
  .bind (composed_object r) fun _ => composed_pure _

@[grind ←] theorem composed_arrayLength (x : Float) : (arrayLength x).Composed K u := by
  unfold arrayLength
  cases (if x < 0 then none else Binary64.toInt? x) with
  | none => exact composed_raise ..
  | some n => exact .bind (composed_checkLength _) fun _ => composed_pure _

/-- A length is checked, or the arguments are taken. -/
@[grind ←] theorem composed_arrayElements : (arrayElements args).Composed K u := by
  unfold arrayElements
  grind

/-- An array is allocated, and its link is set once the prototype is known. -/
@[grind ←] theorem composed_constructArray (newTarget : Value) :
    (constructArray args newTarget).Composed K u :=
  .bind (composed_arrayElements args) fun _ => .bind .realm fun _ =>
    .bind (composed_allocData (by nofun)) fun r => .bind .realm fun _ =>
    .bind (composed_prototypeFor ..) fun _ =>
    .bind (composed_update r (fun _ h => h) fun o => ⟨rfl, id, fun _ => List.prefix_rfl⟩) fun _ =>
    composed_pure _

@[grind ←] theorem composed_indexedMembers : (indexedMembers v).Composed K u :=
  .bind (composed_get ..) fun _ => .bind (composed_toInteger _) fun _ =>
    .bind (composed_checkLength _) fun _ => composed_collect (fun _ => composed_get ..) _

@[grind ←] theorem composed_membersOf : (membersOf v).Composed K u := by
  unfold membersOf
  cases v with
  | object r =>
    exact .bind (composed_object r) fun _ =>
      composed_ite (composed_iterate _) (composed_indexedMembers _)
  | undefined => exact .bind (composed_toText _) fun _ => composed_typeError _
  | null => exact .bind (composed_toText _) fun _ => composed_typeError _
  | _ => exact composed_iterate _

/-- Members are read and mapped by calls. -/
@[grind ←] theorem composed_arrayFrom (source mapper : Value) :
    (arrayFrom source mapper).Composed K u := by
  refine .bind (composed_membersOf source) fun items => composed_ite (composed_newArray items) ?_
  exact .bind (composed_callback mapper) fun _ =>
    .bind (composed_collect (fun _ => composed_call ..) _) fun _ => composed_newArray _

/-- The callback is called once in each round. -/
@[grind ←] theorem composed_overElements {α β : Type} (thisArg : Value) (start : α)
    (step : α → Nat → Value → Value → α ⊕ β) (finish : α → β) :
    (overElements r f thisArg start step finish).Composed K u := by
  refine composed_repeating (fun s => .bind (composed_elementsOf r) fun es => ?_) _
  cases es[s.1]? with
  | none => exact composed_pure _
  | some v =>
    refine .bind (composed_call ..) fun answer => ?_
    cases step s.2 s.1 v answer with
    | inl acc => exact composed_pure _
    | inr b => exact composed_pure _

@[grind ←] theorem composed_mapElements : (mapElements r args).Composed K u :=
  .bind (composed_callback _) fun _ => composed_overElements ..

@[grind ←] theorem composed_findElement : (findElement r args).Composed K u :=
  .bind (composed_callback _) fun _ => composed_overElements ..

@[grind ←] theorem composed_someAnswer (truth : Bool) : (someAnswer r args truth).Composed K u :=
  .bind (composed_callback _) fun _ => composed_overElements ..

/-- The callback is called once for each index. -/
@[grind ←] theorem composed_reduceOver (accumulator : Value) :
    (reduceOver r f accumulator indices).Composed K u := by
  refine composed_repeating (fun s => ?_) _
  obtain ⟨accumulator, indices⟩ := s
  cases indices with
  | nil => exact composed_pure _
  | cons i is =>
    refine .bind (composed_elementsOf r) fun es => ?_
    cases es[i]? with
    | none => exact composed_pure _
    | some v => exact .bind (composed_call ..) fun _ => composed_pure _

@[grind ←] theorem composed_reduce : (reduce r args indices).Composed K u := by
  unfold reduce
  grind

/-- The elements are made texts one after the other. -/
@[grind ←] theorem composed_joinElements (sep : Text) : (joinElements r sep).Composed K u := by
  refine composed_repeating (fun s => .bind (composed_elementsOf r) fun es => ?_) _
  cases es[s.1]? with
  | none => exact composed_pure _
  | some v =>
    exact composed_ite (composed_pure _) (.bind (composed_toText v) fun _ => composed_pure _)

@[grind ←] theorem composed_joinArray (separator : Value) :
    (joinArray this separator).Composed K u := by
  have hjoin (sep : Text) : (do
      let r ← thisArray this "join"
      return .text (← joinElements r sep) : Action Value).Composed K u :=
    .bind (composed_thisArray ..) fun _ => .bind (composed_joinElements ..) fun _ => composed_pure _
  exact composed_ite (hjoin _) (.bind (composed_toText _) hjoin)

@[grind ←] theorem composed_goesBefore (a b : Value) :
    (goesBefore comparator a b).Composed K u := by
  refine composed_ite ?_ ?_
  · exact .bind (composed_toText a) fun _ => .bind (composed_toText b) fun _ => composed_pure _
  · exact .bind (composed_call ..) fun _ => .bind (composed_toNumber _) fun _ => composed_pure _

/-- The comparator is called by the sort, and the elements are put back at the end. -/
@[grind ←] theorem composed_sortArray : (sortArray r comparator).Composed K u := by
  unfold sortArray
  extract_lets rest
  have hrest (x) : (rest x).Composed K u :=
    .bind (composed_elementsOf r) fun _ =>
      .bind (Sort.composed_sort (composed_goesBefore comparator) _) fun _ => composed_setElements ..
  exact composed_ite (.bind (composed_callback _) hrest) (hrest ())

/-- Methods of arrays are made of calls, reads and replaced elements. -/
@[grind ←] theorem composed_callArray (f : ArrayFunction) : (callArray f this args).Composed K u := by
  unfold callArray
  cases f with
  | splice =>
    refine .bind (composed_writableArray ..) fun r => .bind (composed_lengthOf r) fun n =>
      .bind (composed_position ..) fun start => ?_
    grind
  | _ => grind

end

/-! ### Collections, dates and JSON -/

section

variable (this newTarget : Value) (method : String) (args : List Value)

@[grind ←] theorem composed_thisMap : (thisMap this method).Composed K u := by
  cases this with
  | object r =>
    refine .bind (composed_object r) fun o => ?_
    obtain ⟨proto, isError, frozen, properties, content⟩ := o
    cases content with
    | map entries => exact composed_pure _
    | _ => exact composed_typeError _
  | _ => exact composed_typeError _

@[grind ←] theorem composed_thisSet : (thisSet this method).Composed K u := by
  cases this with
  | object r =>
    refine .bind (composed_object r) fun o => ?_
    obtain ⟨proto, isError, frozen, properties, content⟩ := o
    cases content with
    | set entries => exact composed_pure _
    | _ => exact composed_typeError _
  | _ => exact composed_typeError _

/-- Content is replaced by content that is no closure. -/
theorem composed_setContent (r : Ref) {c : Content} (hc : ∀ f, c ≠ .closure f) :
    (setContent r c).Composed K u :=
  composed_update r (fun _ _ => Means.carries_of_content hc) fun o => o.evolves_content c

/-- A map is made of the entries of its argument. -/
@[grind ←] theorem composed_constructMap : (constructMap args newTarget).Composed K u := by
  refine .bind .realm fun realm => .bind (composed_prototypeFor ..) fun proto => ?_
  extract_lets source rest
  have hrest (pairs) : (rest pairs).Composed K u :=
    .bind (composed_allocData (by nofun)) fun _ => composed_pure _
  refine composed_ite (hrest []) (.bind (composed_iterate _) fun _ =>
    .bind (composed_collect (fun entry => ?_) _) hrest)
  exact .bind (composed_get ..) fun _ => .bind (composed_get ..) fun _ => composed_pure _

@[grind ←] theorem composed_constructSet : (constructSet args newTarget).Composed K u := by
  refine .bind .realm fun realm => .bind (composed_prototypeFor ..) fun proto => ?_
  extract_lets source rest
  have hrest (values) : (rest values).Composed K u :=
    .bind (composed_allocData (by nofun)) fun _ => composed_pure _
  exact composed_ite (hrest []) (.bind (composed_iterate _) hrest)

/-- Methods of maps look into the entries or replace them. -/
@[grind ←] theorem composed_callMap (f : MapMethod) : (callMap f this args).Composed K u := by
  have hset (r : Ref) (entries) : (setContent r (.map entries)).Composed K u :=
    composed_setContent r (by nofun)
  unfold callMap
  grind

/-- Methods of sets look into the entries or replace them. -/
@[grind ←] theorem composed_callSet (f : SetMethod) : (callSet f this args).Composed K u := by
  have hset (r : Ref) (entries) : (setContent r (.set entries)).Composed K u :=
    composed_setContent r (by nofun)
  unfold callSet
  grind

end

section

variable (this : Value) (time : Float)

@[grind ←] theorem composed_thisDate : (thisDate this).Composed K u := by
  cases this with
  | object r =>
    refine .bind (composed_object r) fun o => ?_
    obtain ⟨proto, isError, frozen, properties, content⟩ := o
    cases content with
    | date time => exact composed_pure time
    | _ => exact composed_typeError _
  | _ => exact composed_typeError _

@[grind ←] theorem composed_momentOf : (momentOf time).Composed K u :=
  composed_ite (.bind (composed_raise ..) fun _ => composed_ofExcept _) (composed_ofExcept _)

@[grind ←] theorem composed_dateText : (dateText time).Composed K u :=
  composed_ite (composed_pure _) (.bind (composed_momentOf time) fun _ => composed_pure _)

/-- The time of a date is read from its argument, by one conversion at most. -/
@[grind ←] theorem composed_constructDate (args : List Value) (newTarget : Value) :
    (constructDate args newTarget).Composed K u := by
  have halloc (proto : Option Ref) (time : Float) :
      (alloc { proto, content := .date time }).Composed K u := composed_allocData (by nofun)
  unfold constructDate
  grind

@[grind ←] theorem composed_datePart (part : Calendar.Moment → Int) :
    (datePart this part).Composed K u :=
  .bind (composed_thisDate this) fun _ =>
    composed_ite (composed_pure _) (.bind (composed_momentOf _) fun _ => composed_pure _)

/-- Methods of dates make numbers and texts of the time that is kept. -/
@[grind ←] theorem composed_callDate (f : DateFunction) : (callDate f this).Composed K u := by
  unfold callDate
  grind

end

section

variable (v : Value) (indent unit_ : Text) (stack : List Ref) (r : Ref)

/-- What is to be written is the value, or what its `toJSON` returns. -/
@[grind ←] theorem composed_jsonForm : (jsonForm v).Composed K u := by
  unfold jsonForm
  cases v with
  | object r =>
    refine .bind (composed_object r) fun _ => composed_ite (composed_pure _) ?_
    exact .bind (composed_get ..) fun f => .bind (composed_isCallable f) fun _ =>
      composed_ite (composed_call ..) (composed_pure _)
  | _ => exact composed_pure _

/-- An array is written by nested writes. -/
theorem composed_writeElements {nested : NestedWriter}
    (h : ∀ indent v, (nested indent v).Composed K u) :
    (writeElements nested indent unit_ r).Composed K u := by
  refine .bind (composed_repeating (fun s => .bind (composed_object r) fun o => ?_) _) fun _ =>
    composed_pure _
  cases o.elements[s.1]? with
  | none => exact composed_pure _
  | some v => exact .bind (h _ v) fun _ => composed_pure _

@[grind ←] theorem composed_fieldKeys : (fieldKeys r).Composed K u := by
  refine .bind (composed_object r) fun o => ?_
  cases o.content with
  | map entries => exact composed_pure _
  | set entries => exact composed_pure _
  | _ => exact composed_enumerableKeys _

/-- An object is written by nested writes. -/
theorem composed_writeFields {nested : NestedWriter} (h : ∀ indent v, (nested indent v).Composed K u) :
    (writeFields nested indent unit_ r).Composed K u := by
  refine .bind (composed_fieldKeys r) fun keys => ?_
  refine .bind (composed_collect (fun k => ?_) keys) fun _ => composed_pure _
  exact .bind (composed_get ..) fun v => .bind (h _ v) fun _ => composed_pure _

/-- A value is written by reads and calls, by induction on the frames. -/
@[grind ←] theorem composed_writeValue (frames : Nat) :
    (writeValue unit_ frames indent stack v).Composed K u := by
  -- The elements of an array and the fields of a record have fewer frames left.
  induction frames using Nat.strongRecOn generalizing indent stack v with
  | _ frames ih =>
    cases frames with
    | zero => exact composed_fault _
    | succ frames =>
      rw [writeValue]
      have harray (r : Ref) (stack : List Ref) :
          (writeArray unit_ frames indent stack r).Composed K u := by
        unfold writeArray
        split
        · exact composed_fault _
        · exact composed_fault _
        · exact composed_writeElements indent unit_ r fun indent v =>
            ih _ (by omega) v indent stack
      have hrecord (r : Ref) (stack : List Ref) :
          (writeRecord unit_ frames indent stack r).Composed K u := by
        unfold writeRecord
        split
        · exact composed_fault _
        · exact composed_writeFields indent unit_ r fun indent v =>
            ih _ (by omega) v indent stack
      refine .bind (composed_jsonForm v) fun form => ?_
      cases form with
      | object r =>
        refine .bind (composed_object r) fun o => ?_
        exact composed_ite (composed_pure _) <| composed_ite (composed_typeError _) <| composed_ite
          (.bind (harray r _) fun _ => composed_pure _)
          (.bind (hrecord r _) fun _ => composed_pure _)
      | _ => exact composed_pure _

@[grind ←] theorem composed_stringify (level : Value) : (stringify v level).Composed K u :=
  .bind .room fun frames => composed_writeValue _ _ _ _ frames

mutual

/-- A tree is built by new objects and defined properties. -/
@[grind ←] theorem composed_ofTree (frames : Nat) (t : Json.Tree) :
    (ofTree frames t).Composed K u := by
  cases t with
  | list ts =>
    unfold ofTree
    exact composed_ite (composed_fault _) <|
      .bind (composed_ofTrees _ ts) fun vs => composed_newArray vs
  | object fs =>
    unfold ofTree
    exact composed_ite (composed_fault _) <| .bind composed_newObject fun r =>
      .bind (composed_defineFields _ r fs) fun _ => composed_pure _
  | _ =>
    unfold ofTree
    grind

@[grind ←] theorem composed_ofTrees (frames : Nat) (ts : List Json.Tree) :
    (ofTrees frames ts).Composed K u := by
  cases ts with
  | nil =>
    unfold ofTrees
    exact composed_pure []
  | cons t ts =>
    unfold ofTrees
    exact .bind (composed_ofTree frames t) fun v => .bind (composed_ofTrees frames ts) fun vs =>
      composed_pure (v :: vs)

@[grind ←] theorem composed_defineFields (frames : Nat) (r : Ref) (fs : List (Text × Json.Tree)) :
    (defineFields frames r fs).Composed K u := by
  cases fs with
  | nil =>
    unfold defineFields
    exact composed_pure ()
  | cons f fs =>
    unfold defineFields
    exact .bind (composed_ofTree frames f.2) fun v => .bind (composed_define r f.1 v) fun _ =>
      composed_defineFields frames r fs

end

@[grind ←] theorem composed_parseJson (t : Text) : (parseJson t).Composed K u := by
  refine .bind .room fun room => ?_
  rcases Json.read room t with f | tree
  · cases f with
    | tooDeep => exact composed_fault _
    | _ => exact composed_raise ..
  · exact .bind .room fun frames => composed_ofTree frames tree

/-- Both functions are made of reads, calls and new objects. -/
@[grind ←] theorem composed_callJson (f : JsonFunction) (args : List Value) :
    (callJson f args).Composed K u := by
  cases f with
  | stringify => exact .bind (composed_stringify ..) fun _ => composed_pure _
  | parse => exact .bind (composed_toText _) fun _ => composed_parseJson _

end

/-! ### Numbers and texts -/

section

variable (args : List Value) (this : Value)

@[grind ←] theorem composed_callGlobal (f : GlobalFunction) : (callGlobal f args).Composed K u := by
  unfold callGlobal
  grind

@[grind ←] theorem composed_thisNumber : (thisNumber this).Composed K u := by
  cases this with
  | number x => exact composed_pure x
  | _ => exact composed_typeError _

@[grind ←] theorem composed_toFixed (digits : Value) : (toFixed this digits).Composed K u := by
  unfold toFixed
  grind

@[grind ←] theorem composed_numberToText (radix : Value) : (numberToText this radix).Composed K u := by
  unfold numberToText
  grind

/-- Methods of numbers are conversions. -/
@[grind ←] theorem composed_callNumber (f : NumberFunction) :
    (callNumber f this args).Composed K u := by
  unfold callNumber
  grind

@[grind ←] theorem composed_callBoolean (f : BooleanMethod) : (callBoolean f this).Composed K u := by
  cases this with
  | bool b => cases f <;> exact composed_pure _
  | _ => cases f <;> exact composed_typeError _

/-- Functions of numbers are conversions. -/
@[grind ←] theorem composed_callMath (f : MathFunction) : (callMath f args).Composed K u := by
  unfold callMath
  grind

end

section

variable (this replacer pattern : Value) (args : List Value) (t : Text)

@[grind ←] theorem composed_thisText : (thisText this).Composed K u := by
  unfold thisText
  cases this with
  | undefined => exact composed_typeError _
  | null => exact composed_typeError _
  | text t => exact composed_pure t
  | _ => exact composed_toText _

@[grind ←] theorem composed_clampedPosition (v : Value) (length default : Nat) :
    (clampedPosition v length default).Composed K u :=
  composed_ite (composed_pure default) (.bind (composed_toInteger v) fun _ => composed_pure _)

@[grind ←] theorem composed_fromCharCodes : (fromCharCodes args).Composed K u :=
  composed_collect (fun v => .bind (composed_toInteger v) fun _ => composed_pure _) args

/-- A replacer is called once, or a template is expanded. -/
@[grind ←] theorem composed_replacement (found : Text) (i : Nat) :
    (replacement replacer found i t).Composed K u := by
  refine .bind (composed_isCallable replacer) fun _ => composed_ite ?_ ?_
  · exact .bind (composed_call ..) fun _ => composed_toText _
  · exact .bind (composed_toText replacer) fun _ => composed_pure _

@[grind ←] theorem composed_replaceFirst : (replaceFirst t pattern replacer).Composed K u := by
  refine .bind (composed_toText pattern) fun p => ?_
  cases t.find? p 0 with
  | none => exact composed_pure t
  | some i => exact .bind (composed_replacement ..) fun _ => composed_pure _

/-- Matches are replaced one after the other. -/
@[grind ←] theorem composed_replaceAt (p : Text) (is : List Nat) (last : Nat) (done : Text) :
    (replaceAt t p replacer is last done).Composed K u := by
  induction is generalizing last done with
  | nil => exact composed_pure _
  | cons i is ih => exact .bind (composed_replacement ..) fun _ => ih ..

@[grind ←] theorem composed_replaceAll : (replaceAll t pattern replacer).Composed K u :=
  .bind (composed_toText pattern) fun _ => composed_replaceAt ..

@[grind ←] theorem composed_repeatText (count : Value) : (repeatText this count).Composed K u := by
  unfold repeatText
  grind

@[grind ←] theorem composed_padText (atStart : Bool) : (padText this args atStart).Composed K u := by
  unfold padText
  grind

/-- The pieces are put into a new array. -/
@[grind ←] theorem composed_splitText (separator limit : Value) :
    (splitText t separator limit).Composed K u := by
  unfold splitText
  grind

/-- Methods of texts are conversions, calls and new arrays. -/
@[grind ←] theorem composed_callText (f : TextFunction) : (callText f this args).Composed K u := by
  unfold callText
  grind

end

/-! ### Calls -/

section

variable (args : List Value) (newTarget this v : Value) (f : Native)

@[grind ←] theorem composed_constructError (kind : ErrorKind) :
    (constructError kind args newTarget).Composed K u := by
  unfold constructError
  refine .bind .realm fun realm => ?_
  split
  · exact composed_fault _
  · have halloc (proto : Option Ref) (properties : OrderedMap Text Slot) :
        (alloc { proto, isError := true, properties }).Composed K u := composed_allocData (by nofun)
    refine .bind (composed_object _) fun o => ?_
    grind

@[grind ←] theorem composed_errorText : (errorText this).Composed K u := by
  unfold errorText
  grind

@[grind ←] theorem composed_hookInteger : (hookInteger v).Composed K u := by
  refine .bind composed_heap fun heap => .bind .room fun room =>
    .bind (composed_ofExcept _) fun x => ?_
  cases Binary64.truncate? x with
  | none => exact composed_fault _
  | some n => exact composed_pure n

/-- A hook converts its arguments and tells the host. -/
@[grind ←] theorem composed_callHook (h : Instrument.Hook) : (callHook h args).Composed K u := by
  have htell (f : Heap → Call) (hf : ∀ h, (f h).IsHook) (v : Value) :
      (do tell f; return v).Composed K u := .bind (.tell f hf) fun _ => composed_pure v
  cases h with
  | step =>
    exact .bind (composed_hookInteger _) fun id => .bind (composed_hookInteger _) fun line =>
      htell _ (fun _ => by trivial) _
  | track =>
    exact .bind (composed_toText _) fun name => .bind .room fun room =>
      htell _ (fun _ => by trivial) _
  | enter =>
    have hname (values : List Value) : (do
        let name ← toText (arg args 0)
        let room ← room
        tell fun heap => .enter heap room name values
        return Value.undefined).Composed K u :=
      .bind (composed_toText _) fun name => .bind .room fun room =>
        htell _ (fun _ => by trivial) _
    unfold callHook
    cases arg args 1 with
    | object r => exact .bind (composed_object r) fun o => hname _
    | _ => exact hname []
  | exit => exact .bind .room fun room => htell _ (fun _ => by trivial) _
  | memory => exact htell _ (fun _ => by trivial) _

/-- What the console shows is written like JSON or described. -/
@[grind ←] theorem composed_consoleText : (consoleText v).Composed K u := by
  unfold consoleText
  cases v with
  | object r =>
    exact .bind (composed_object r) fun _ =>
      composed_ite (composed_toText _) (.bind (composed_stringify ..) fun _ => composed_pure _)
  | _ => exact composed_plainText _

/-- A constructor that is called converts its argument, makes an object or refuses. -/
@[grind ←] theorem composed_callConstructor (c : Constructor) :
    (callConstructor c args).Composed K u := by
  unfold callConstructor
  grind

/-- All native functions but those of the console. -/
theorem composed_callNative (hf : ∀ k, f ≠ .console k) : (callNative f this args).Composed K u := by
  cases f with
  | console k => exact absurd rfl (hf k)
  | constructor c => exact composed_callConstructor args c
  | errorToString => exact .bind (composed_errorText this) fun _ => composed_pure _
  | bound target this first => exact composed_call ..
  | _ => grind [callNative]

/-- All native constructors. -/
@[grind ←] theorem composed_constructNative (name : Text) :
    (constructNative name f args newTarget).Composed K u := by
  unfold constructNative
  grind

theorem composed_notFunction (f : Value) : (notFunction f).Composed K u :=
  .bind (composed_describe f) fun _ => composed_typeError _

variable (hK : K.Hereditary) (hdeep : K.descends)

include hK hdeep

/-- Only a console function is not composed: it is a call of the host. -/
theorem callContent_cases (r : Ref) {o : Object} (ho : K.Carries o) :
    (callContent r o.content this args).Composed K u ∨
      ∃ k, callContent r o.content this args = callConsole k args := by
  obtain ⟨proto, isError, frozen, properties, content⟩ := o
  cases content with
  | native name n =>
    by_cases hn : ∃ k, n = .console k
    · obtain ⟨k, rfl⟩ := hn
      exact .inr ⟨k, rfl⟩
    · exact .inl (composed_callNative _ _ _ fun k hk => hn ⟨k, hk⟩)
  | closure c => exact .inl (composed_callClosure args r hK hdeep (ho c rfl) this)
  | _ => exact .inl (composed_notFunction _)

/-- In any one state, to call a value is a composed action or a console call. -/
theorem callValue_cases (f : Value) {w : World} (hw : K.Sound w.heap) : ∃ x : Action Value,
    (x.Composed K u ∨ ∃ k, x = callConsole k args) ∧ ∀ c, callValue f this args c w = x c w := by
  cases f with
  | object r => exact ⟨_, callContent_cases args this hK hdeep r (hw r), fun _ => rfl⟩
  | _ => exact ⟨_, .inl (composed_notFunction _), fun _ => rfl⟩

/-- A construction is native, or of a closure, or it is refused. -/
theorem composed_constructValue (f : Value) : (constructValue f args newTarget).Composed K u := by
  unfold constructValue
  cases f with
  | object r =>
    refine .look r fun o ho => ?_
    obtain ⟨proto, isError, frozen, properties, content⟩ := o
    cases content with
    | native name n => exact composed_constructNative ..
    | closure c => exact composed_constructClosure args r hK hdeep (ho c rfl) newTarget
    | _ => exact composed_notConstructor _
  | _ => exact composed_notConstructor _

end

end Stepper.Builtin
