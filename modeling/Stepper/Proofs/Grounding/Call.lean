import Stepper.Builtin.Call
import Stepper.Proofs.Grounding.Builtin
import Stepper.Proofs.Grounding.Statement

/-!
All functions that are there before a program runs are grounded, and so is it to call or construct
any value.
-/
namespace Stepper.Builtin

open Machine Machine.Action

variable {n : Horizon}

/-! ### Collections, dates and JSON -/

section

variable {args : List Value} (hargs : Known n args) {this newTarget : Value}

/-- A receiver that is a map is handed on with its entries. -/
@[grind ←] theorem grounded_thisMap (hthis : Known n this) (method : String) :
    (thisMap this method).Grounded n := by
  have hwrong (m : Horizon) : (thisMap.wrongReceiver method).Grounded m := grounded_typeError _
  unfold thisMap
  grind

@[grind ←] theorem grounded_thisSet (hthis : Known n this) (method : String) :
    (thisSet this method).Grounded n := by
  have hwrong (m : Horizon) : (thisSet.wrongReceiver method).Grounded m := grounded_typeError _
  unfold thisSet
  grind

/-- An object keeps its link when its content is replaced. -/
@[grind ←] theorem grounded_setContent (r : Ref) {c : Content} (hc : Known n c) :
    (setContent r c).Grounded n := by
  unfold setContent
  grind

/-- What is added to a set is all that its entries refer to anew. -/
@[grind ←] theorem known_addToSet {entries : SetEntries} (h : Known n entries) {v : Value}
    (hv : Known n v) : Known n (addToSet entries v) := by
  unfold addToSet
  grind

theorem known_foldl_addToSet {vs : List Value} (hvs : Known n vs) {entries : SetEntries}
    (h : Known n entries) : Known n (vs.foldl addToSet entries) := by
  induction vs generalizing entries with
  | nil => exact h
  | cons v vs ih =>
    have hvs := known_cons.mp hvs
    exact ih hvs.2 (known_addToSet h hvs.1)

include hargs

/-- A new map holds what the members of its argument refer to. -/
@[grind ←] theorem grounded_constructMap (hnew : Known n newTarget) :
    (constructMap args newTarget).Grounded n := by
  have hfirst := known_arg hargs 0
  unfold constructMap
  refine .bind grounded_realm fun _ realm _ _ =>
    .bind (grounded_prototypeFor (by grind) (by grind)) fun m proto _ _ => ?_
  extract_lets source rest
  have hrest (k : Horizon) (h : Later m k) (pairs) (hp : Known k pairs) : (rest pairs).Grounded k :=
    .bind (grounded_alloc (by grind)) fun _ _ _ _ => grounded_pure (by grind)
  clear_value rest
  refine grounded_ite (fun _ => ?_) fun _ => .bind (grounded_iterate _) fun _ entries _ _ =>
    .bind (grounded_collect (by grind) fun _ entry _ _ => ?_) fun _ pairs _ _ => ?_
  · grind
  · grind
  · grind

/-- A new set holds the members of its argument. -/
@[grind ←] theorem grounded_constructSet (hnew : Known n newTarget) :
    (constructSet args newTarget).Grounded n := by
  have hfirst := known_arg hargs 0
  have hset (k : Horizon) (vs : List Value) (hvs : Known k vs) :
      Known k (vs.foldl addToSet ([] : SetEntries)) := known_foldl_addToSet hvs known_nil
  unfold constructSet
  refine .bind grounded_realm fun _ realm _ _ =>
    .bind (grounded_prototypeFor (by grind) (by grind)) fun m proto _ _ => ?_
  extract_lets source rest
  have hrest (k : Horizon) (h : Later m k) (values) (hv : Known k values) : (rest values).Grounded k :=
    .bind (grounded_alloc (by grind)) fun _ _ _ _ => grounded_pure (by grind)
  clear_value rest
  grind

/-- Methods of maps hand out keys and values that the map holds, and store those they are given. -/
@[grind ←] theorem grounded_callMap (f : MapMethod) (hthis : Known n this) :
    (callMap f this args).Grounded n := by
  have hfirst := known_arg hargs 0
  have hsecond := known_arg hargs 1
  unfold callMap
  cases f with
  | forEach =>
    refine .bind (grounded_callback hfirst) fun _ _ _ _ =>
      .bind (grounded_thisMap (by grind) _) fun _ p _ hp =>
      .bind (grounded_each (known_values (known_prod.mp hp).2) fun _ q _ hq => ?_)
      fun _ _ _ _ => grounded_pure known_undefined
    exact .bind (grounded_call (by grind) (by grind) (by grind)) fun _ _ _ _ =>
      grounded_pure (known_plain _ _)
  | keys =>
    exact .bind (grounded_thisMap hthis _) fun _ p _ hp => grounded_newArray (known_map fun q hq =>
      (known_prod.mp (known_list.mp (known_values (known_prod.mp hp).2) q hq)).1)
  | values =>
    exact .bind (grounded_thisMap hthis _) fun _ p _ hp => grounded_newArray (known_map fun q hq =>
      (known_prod.mp (known_list.mp (known_values (known_prod.mp hp).2) q hq)).2)
  | _ => grind

/-- Methods of sets hand out members that the set holds, and store those they are given. -/
@[grind ←] theorem grounded_callSet (f : SetMethod) (hthis : Known n this) :
    (callSet f this args).Grounded n := by
  have hfirst := known_arg hargs 0
  have hsecond := known_arg hargs 1
  unfold callSet
  cases f with
  | forEach =>
    refine .bind (grounded_callback hfirst) fun _ _ _ _ =>
      .bind (grounded_thisSet (by grind) _) fun _ p _ hp =>
      .bind (grounded_each (known_values (known_prod.mp hp).2) fun _ v _ hv => ?_)
      fun _ _ _ _ => grounded_pure known_undefined
    exact .bind (grounded_call (by grind) (by grind) (by grind)) fun _ _ _ _ =>
      grounded_pure (known_plain _ _)
  | _ => grind

end

section

variable {this newTarget : Value}

@[grind ←] theorem grounded_thisDate (this : Value) : (thisDate this).Grounded n := by
  unfold thisDate
  grind

instance : Refers Calendar.Moment := .plain
instance : Refers.Plain Calendar.Moment := ⟨fun _ => rfl⟩

@[grind ←] theorem grounded_momentOf (time : Float) : (momentOf time).Grounded n := by
  unfold momentOf
  grind

@[grind ←] theorem grounded_dateText (time : Float) : (dateText time).Grounded n := by
  unfold dateText
  grind

/-- A date refers to its prototype only. -/
@[grind ←] theorem grounded_constructDate {args : List Value} (hargs : Known n args)
    (hnew : Known n newTarget) : (constructDate args newTarget).Grounded n := by
  unfold constructDate
  extract_lets rest
  have hrest (k : Horizon) (h : Later n k) (time) : (rest time).Grounded k :=
    .bind grounded_realm fun _ realm _ _ =>
      .bind (grounded_prototypeFor (by grind) (by grind)) fun _ proto _ _ =>
      .bind (grounded_alloc (by grind)) fun _ _ _ _ => grounded_pure (by grind)
  clear_value rest
  grind

@[grind ←] theorem grounded_datePart (this : Value) (part : Calendar.Moment → Int) :
    (datePart this part).Grounded n := by
  unfold datePart
  grind

/-- Methods of dates give numbers and texts. -/
@[grind ←] theorem grounded_callDate (f : DateFunction) (this : Value) :
    (callDate f this).Grounded n := by
  unfold callDate
  cases f <;> grind

end

section

variable {v : Value} (hv : Known n v)

/-- What `toJSON` makes of a known value is known. -/
@[grind ←] theorem grounded_jsonForm (hv : Known n v) : (jsonForm v).Grounded n := by
  unfold jsonForm
  grind

@[grind ←] theorem grounded_fieldKeys (r : Ref) : (fieldKeys r).Grounded n := by
  unfold fieldKeys
  grind

section

variable {nested : NestedWriter} (h : ∀ m indent v, Later n m → Known m v → (nested indent v).Grounded m)

include h

/-- An array is written by nested writes of elements that the heap holds. -/
theorem grounded_writeElements (indent unit_ : Text) (r : Ref) :
    (writeElements nested indent unit_ r).Grounded n := by
  unfold writeElements
  refine .bind (grounded_repeating (known_plain _ _) fun m s hm _ => ?_) fun _ items _ _ =>
    grounded_pure (known_plain _ _)
  refine .bind (grounded_object r) fun k o hk ho => ?_
  cases hv : o.elements[s.1]? with
  | none => exact grounded_pure (known_plain _ _)
  | some v =>
    have hv : Known k v := known_option.mp (known_getElem? ho.elements s.1) v hv
    exact .bind (h k _ v (hm.trans hk) hv) fun _ _ _ _ => grounded_pure (known_plain _ _)

/-- An object is written by nested writes of values that the heap holds. -/
theorem grounded_writeFields (indent unit_ : Text) {r : Ref} (hr : Known n r) :
    (writeFields nested indent unit_ r).Grounded n := by
  unfold writeFields
  grind

end

/-- A value is written by calls on what can be reached from it, by induction on the frames. -/
@[grind ←] theorem grounded_writeValue (unit_ : Text) (frames : Nat) (indent : Text)
    (stack : List Ref) (hv : Known n v) :
    (writeValue unit_ frames indent stack v).Grounded n := by
  induction frames using Nat.strongRecOn generalizing n indent stack v with
  | _ frames ih =>
    cases frames with
    | zero => exact grounded_fault _
    | succ frames =>
      rw [writeValue]
      have hnested (k : Nat) (hk : k < frames) (stack : List Ref) (m : Horizon) (indent : Text)
          (v : Value) (hv : Known m v) : (writeValue unit_ k indent stack v).Grounded m :=
        ih k (by omega) indent stack hv
      have harray (m : Horizon) (r : Ref) (stack : List Ref) :
          (writeArray unit_ frames indent stack r).Grounded m := by
        unfold writeArray
        split
        · exact grounded_fault _
        · exact grounded_fault _
        · next k =>
          exact grounded_writeElements
            (fun m indent v _ => hnested k (by omega) stack m indent v) indent unit_ r
      have hrecord (m : Horizon) (r : Ref) (hr : Known m r) (stack : List Ref) :
          (writeRecord unit_ frames indent stack r).Grounded m := by
        unfold writeRecord
        split
        · exact grounded_fault _
        · next k =>
          exact grounded_writeFields
            (fun m indent v _ => hnested k (by omega) stack m indent v) indent unit_ hr
      refine .bind (grounded_jsonForm hv) fun m form _ hform => ?_
      cases form with
      | object r =>
        refine .bind (grounded_object r) fun m o _ _ => ?_
        grind
      | _ => exact grounded_pure (known_plain _ _)

/-- To write a known value is grounded. -/
@[grind ←] theorem grounded_stringify (hv : Known n v) (indent : Value) :
    (stringify v indent).Grounded n := by
  unfold stringify
  grind

mutual

/-- A tree is built of new objects, by induction on the frames. -/
@[grind ←] theorem grounded_ofTree {n : Horizon} (frames : Nat) (t : Json.Tree) :
    (ofTree frames t).Grounded n := by
  cases t with
  | list ts =>
    unfold ofTree
    exact grounded_ite (fun _ => grounded_fault _) fun _ =>
      .bind (grounded_ofTrees _ ts) fun _ _ _ hvs => grounded_newArray hvs
  | object fs =>
    unfold ofTree
    exact grounded_ite (fun _ => grounded_fault _) fun _ => .bind grounded_newObject fun _ r _ hr =>
      .bind (grounded_defineFields _ r fs) fun _ _ hm _ =>
      grounded_pure (known_object.mpr (hr.mono hm))
  | _ =>
    unfold ofTree
    grind

@[grind ←] theorem grounded_ofTrees {n : Horizon} (frames : Nat) (ts : List Json.Tree) :
    (ofTrees frames ts).Grounded n := by
  cases ts with
  | nil =>
    unfold ofTrees
    exact grounded_pure known_nil
  | cons t ts =>
    unfold ofTrees
    exact .bind (grounded_ofTree _ t) fun _ v _ hv => .bind (grounded_ofTrees _ ts) fun _ vs hm hvs =>
      grounded_pure (known_cons.mpr ⟨hv.mono hm, hvs⟩)

@[grind ←] theorem grounded_defineFields {n : Horizon} (frames : Nat) (r : Ref)
    (fs : List (Text × Json.Tree)) : (defineFields frames r fs).Grounded n := by
  cases fs with
  | nil =>
    unfold defineFields
    exact grounded_pure (known_plain _ _)
  | cons f fs =>
    unfold defineFields
    exact .bind (grounded_ofTree _ f.2) fun _ v _ hv =>
      .bind (grounded_define r f.1 hv) fun _ _ _ _ =>
      grounded_defineFields _ r fs

end

/-- A parsed text makes objects of its own only. -/
@[grind ←] theorem grounded_parseJson (t : Text) : (parseJson t).Grounded n := by
  unfold parseJson
  grind

@[grind ←] theorem grounded_callJson (f : JsonFunction) {args : List Value} (hargs : Known n args) :
    (callJson f args).Grounded n := by
  unfold callJson
  grind

end

/-! ### Numbers and texts -/

section

variable {args : List Value} (hargs : Known n args) (this : Value)

include hargs in
@[grind ←] theorem grounded_callGlobal (f : GlobalFunction) : (callGlobal f args).Grounded n := by
  have hsecond := known_arg hargs 1
  unfold callGlobal
  grind

@[grind ←] theorem grounded_thisNumber : (thisNumber this).Grounded n := by
  unfold thisNumber
  grind

@[grind ←] theorem known_numberWith (v : Value) (p : Float → Bool) : Known n (numberWith v p) := by
  unfold numberWith
  grind

/-- A number is rendered after its digits are converted, which may run code. -/
@[grind ←] theorem grounded_toFixed {digits : Value} (hd : Known n digits) :
    (toFixed this digits).Grounded n := by
  unfold toFixed
  grind

@[grind ←] theorem grounded_numberToText {radix : Value} (hr : Known n radix) :
    (numberToText this radix).Grounded n := by
  unfold numberToText
  grind

include hargs in
/-- Methods of numbers convert what they are given and make no object. -/
@[grind ←] theorem grounded_callNumber (f : NumberFunction) :
    (callNumber f this args).Grounded n := by
  unfold callNumber
  grind

@[grind ←] theorem grounded_callBoolean (f : BooleanMethod) : (callBoolean f this).Grounded n := by
  unfold callBoolean
  grind

include hargs in
/-- Functions of numbers convert what they are given and make no object. -/
@[grind ←] theorem grounded_callMath (f : MathFunction) : (callMath f args).Grounded n := by
  unfold callMath
  grind

end

section

variable {this replacer pattern v : Value} {args : List Value} (t : Text)

/-- A receiver is made a text by code that is known to it. -/
@[grind ←] theorem grounded_thisText (hthis : Known n this) : (thisText this).Grounded n := by
  unfold thisText
  grind

@[grind ←] theorem grounded_clampedPosition (hv : Known n v) (length default : Nat) :
    (clampedPosition v length default).Grounded n := by
  unfold clampedPosition
  grind

@[grind ←] theorem grounded_fromCharCodes (hargs : Known n args) :
    (fromCharCodes args).Grounded n := by
  unfold fromCharCodes
  grind

/-- A replacer is called with texts and numbers. -/
@[grind ←] theorem grounded_replacement (hr : Known n replacer) (found : Text) (i : Nat) :
    (replacement replacer found i t).Grounded n := by
  unfold replacement
  grind

/-- One match is replaced by at most one call of the replacer. -/
@[grind ←] theorem grounded_replaceFirst (hp : Known n pattern) (hr : Known n replacer) :
    (replaceFirst t pattern replacer).Grounded n := by
  unfold replaceFirst
  grind

/-- Matches are replaced one by one, each by at most one call of the replacer. -/
@[grind ←] theorem grounded_replaceAt (p : Text) (hr : Known n replacer) (is : List Nat)
    (last : Nat) (done : Text) : (replaceAt t p replacer is last done).Grounded n := by
  induction is generalizing n last done with
  | nil => exact grounded_pure (known_plain _ _)
  | cons i is ih =>
    unfold replaceAt
    grind

/-- All matches are replaced by calls of the replacer. -/
@[grind ←] theorem grounded_replaceAll (hp : Known n pattern) (hr : Known n replacer) :
    (replaceAll t pattern replacer).Grounded n := by
  unfold replaceAll
  grind

@[grind ←] theorem grounded_repeatText (hthis : Known n this) (hv : Known n v) :
    (repeatText this v).Grounded n := by
  unfold repeatText
  grind

@[grind ←] theorem grounded_padText (hthis : Known n this) (hargs : Known n args)
    (atStart : Bool) : (padText this args atStart).Grounded n := by
  have hsecond := known_arg hargs 1
  unfold padText
  grind

/-- A new array holds the pieces of a text, and texts refer to nothing. -/
@[grind ←] theorem grounded_splitText {separator limit : Value} (hs : Known n separator)
    (hl : Known n limit) : (splitText t separator limit).Grounded n := by
  unfold splitText
  extract_lets rest
  have hrest (k : Horizon) (h : Later n k) (parts) : (rest parts).Grounded k := by
    unfold rest
    grind
  clear_value rest
  grind

/-- Methods of texts convert what they are given, and what they make refers to texts. -/
@[grind ←] theorem grounded_callText (f : TextFunction) (hthis : Known n this)
    (hargs : Known n args) : (callText f this args).Grounded n := by
  have hsecond := known_arg hargs 1
  unfold callText
  cases f <;> grind

end

/-! ### Calls -/

section

variable {args : List Value} (hargs : Known n args) {this newTarget v : Value} {f : Native}

/-- An error holds the text of its message. -/
@[grind ←] theorem grounded_constructError (hargs : Known n args) (kind : ErrorKind)
    (hnew : Known n newTarget) : (constructError kind args newTarget).Grounded n := by
  unfold constructError
  refine .bind grounded_realm fun _ realm _ _ => ?_
  split
  · exact grounded_fault _
  · refine .bind (grounded_object _) fun m o _ ho => ?_
    split
    · next fallback hfallback =>
      have hf : Known m (Slot.value (.object fallback)) := known_of_get? ho.properties hfallback
      refine .bind (grounded_prototypeFor (by grind) (by grind)) fun m proto _ _ => ?_
      extract_lets message rest
      have hrest (k : Horizon) (h : Later m k) (t) : (rest t).Grounded k := by
        unfold rest
        extract_lets own stack
        have hown : Known k own := by grind
        refine .bind (grounded_alloc (known_mk.mpr ⟨?_, known_append.mpr ⟨hown, ?_⟩,
          known_content_plain⟩)) fun _ _ _ hr => grounded_pure hr
        · grind
        · grind
      clear_value rest
      grind
    · exact grounded_fault _

@[grind ←] theorem grounded_errorText (hthis : Known n this) : (errorText this).Grounded n := by
  unfold errorText
  grind

@[grind ←] theorem grounded_hookInteger (v : Value) : (hookInteger v).Grounded n := by
  unfold hookInteger
  grind

/-- What the console shows of a value is written by calls on that value. -/
@[grind ←] theorem grounded_consoleText (hv : Known n v) : (consoleText v).Grounded n := by
  unfold consoleText
  grind

include hargs

/-- A hook hands the world to the host, and the reply brings in no object. -/
@[grind ←] theorem grounded_callHook (h : Instrument.Hook) : (callHook h args).Grounded n := by
  have hfirst := known_arg hargs 0
  have hsecond := known_arg hargs 1
  unfold callHook
  cases h with
  | enter =>
    have htell (m : Horizon) (values : List Value) (hm : Later n m) (hvalues : Known m values) :
        (do
          let name ← toText (arg args 0)
          let room ← room
          tell fun heap => .enter heap room name values
          return Value.undefined : Action Value).Grounded m := by
      grind
    grind
  | _ => grind

/-- The console hands the world to the host, and the reply brings in no object. -/
@[grind ←] theorem grounded_callConsole (k : ConsoleKind) : (callConsole k args).Grounded n := by
  unfold callConsole
  grind

/-- A constructor that is called makes objects of known arguments. -/
@[grind ←] theorem grounded_callConstructor (c : Constructor) :
    (callConstructor c args).Grounded n := by
  unfold callConstructor
  grind

/-- Every native function is grounded if it and its arguments are known. -/
@[grind ←] theorem grounded_callNative (hf : Known n f) (hthis : Known n this) :
    (callNative f this args).Grounded n := by
  unfold callNative
  cases f <;> grind

/-- Every native constructor is grounded if its arguments and the new target are known. -/
@[grind ←] theorem grounded_constructNative (name : Text) (hf : Known n f)
    (hnew : Known n newTarget) : (constructNative name f args newTarget).Grounded n := by
  unfold constructNative
  grind

omit hargs in
@[grind ←] theorem grounded_notFunction (v : Value) : (notFunction v).Grounded n := by
  unfold notFunction
  grind

/-- An object is called as its content says. -/
@[grind ←] theorem grounded_callContent {r : Ref} (hr : Known n r) {content : Content}
    (hc : Known n content) (hthis : Known n this) :
    (callContent r content this args).Grounded n := by
  unfold callContent
  grind

/-- A call is grounded: of a native function by the lemma about it, of a closure by the context. -/
theorem grounded_callValue (hv : Known n v) (hthis : Known n this) :
    (callValue v this args).Grounded n := by
  unfold callValue
  grind

/-- A construction is grounded, of a native constructor or of a class. -/
theorem grounded_constructValue (hv : Known n v) (hnew : Known n newTarget) :
    (constructValue v args newTarget).Grounded n := by
  unfold constructValue
  grind

end

end Stepper.Builtin
