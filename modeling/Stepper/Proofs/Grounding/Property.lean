import Stepper.Machine.Property
import Stepper.Proofs.Grounding.Action

/-!
Reading and writing properties, and the conversions that may call functions of the program, are
grounded.
-/

namespace Stepper.Machine

open Syntax

namespace Action

variable {n : Horizon}

/-- A new object refers to its prototype only. -/
@[grind ←] theorem grounded_newObject : newObject.Grounded n := by
  unfold newObject
  grind

/-- A new array refers to its elements. -/
@[grind ←] theorem grounded_newArray {es : List Value} (hes : Known n es) :
    (newArray es).Grounded n := by
  unfold newArray
  grind

/-- A new native function refers to what it has bound. -/
@[grind ←] theorem grounded_newNative (name : Text) {f : Native} (hf : Known n f) :
    (newNative name f).Grounded n := by
  unfold newNative
  grind

/-- A property is defined with a known value. -/
@[grind ←] theorem grounded_define (r : Ref) (k : Text) {v : Value} (hv : Known n v) :
    (define r k v).Grounded n := by
  unfold define
  grind

/-- An error object holds texts. -/
@[grind ←] theorem grounded_errorObject (kind : ErrorKind) (message : Text) :
    (errorObject kind message).Grounded n := by
  unfold errorObject
  refine .bind grounded_realm fun m realm hm hrealm => ?_
  split
  · exact grounded_fault _
  · refine .bind (grounded_object _) fun m o hm ho => ?_
    have hown (full : Text) : Known m
        ([("message", .value (.text message)), ("stack", .value (.text full))] :
          OrderedMap Text Slot) := by grind
    grind

@[grind ←] theorem grounded_isCallable (v : Value) : (isCallable v).Grounded n := by
  unfold isCallable
  grind

@[grind ←] theorem grounded_plainText (v : Value) : (plainText v).Grounded n := by
  unfold plainText
  grind

@[grind ←] theorem grounded_plainInteger (v : Value) : (plainInteger v).Grounded n := by
  unfold plainInteger
  grind

/-- A value is described without running code. -/
@[grind ←] theorem grounded_describe (v : Value) : (describe v).Grounded n := by
  unfold describe
  grind

/-- A slot gives its value, or calls its getter on the receiver. -/
@[grind ←] theorem grounded_slotValue {s : Option Slot} {v : Value} (hs : Known n s)
    (hv : Known n v) : (slotValue s v).Grounded n := by
  unfold slotValue
  grind

/-- What a chain of objects has under a key is known, and so is its getter. -/
@[grind ←] theorem grounded_getFrom (r : Ref) (k : Text) {v : Value} (hv : Known n v) :
    (getFrom r k v).Grounded n := by
  unfold getFrom
  grind

@[grind ←] theorem grounded_getOwnOrInherited {r : Ref} (hr : Known n r) (k : Text) :
    (getOwnOrInherited r k).Grounded n := by
  unfold getOwnOrInherited
  grind

/-- To read a property of a known value is grounded. -/
@[grind ←] theorem grounded_get {v : Value} (hv : Known n v) (k : Text) : (get v k).Grounded n := by
  unfold get
  grind

/-- A length that is too large is refused. -/
@[grind ←] theorem grounded_checkLength (k : Nat) : (checkLength k).Grounded n := by
  unfold checkLength
  grind

@[grind ←] theorem known_resized {es : Array Value} (h : Known n es) (k : Nat) :
    Known n (resized es k) := by
  unfold resized
  grind

/-- An array with an element set is known if that element is. -/
@[grind ←] theorem known_withElement {es : Array Value} (h : Known n es) (i : Nat) {v : Value}
    (hv : Known n v) : Known n (withElement es i v) := by
  unfold withElement
  grind

/-- Elements are replaced, and the link of their array stays. -/
@[grind ←] theorem grounded_setElements (r : Ref) {f : Array Value → Array Value}
    (hf : ∀ m es, Later n m → Known m es → Known m (f es)) : (setElements r f).Grounded n := by
  unfold setElements
  grind

/-- A named property is set by its setter or in the object itself. -/
@[grind ←] theorem grounded_setNamed {r : Ref} (hr : Known n r) (k : Text) {v : Value}
    (hv : Known n v) : (setNamed r k v).Grounded n := by
  unfold setNamed
  grind

/-- To write a property of a known value is grounded. -/
@[grind ←] theorem grounded_set {target : Value} (ht : Known n target) (k : Text) {v : Value}
    (hv : Known n v) : (set target k v).Grounded n := by
  unfold set
  cases target with
  | object r =>
    refine .bind (grounded_object r) fun m o hm ho => ?_
    grind
  | _ => grind

@[grind ←] theorem grounded_delete (v : Value) (k : Text) : (delete v k).Grounded n := by
  unfold delete
  cases v with
  | object r =>
    refine .bind (grounded_object r) fun m o hm ho => ?_
    grind
  | _ => grind

/-- A known object is made primitive by methods found on its chain. -/
@[grind ←] theorem grounded_primitiveBy {v : Value} (hv : Known n v) (names : List Text) :
    (primitiveBy v names).Grounded n := by
  induction names generalizing n with
  | nil => exact grounded_typeError _
  | cons name names ih =>
    unfold primitiveBy
    grind

/-- A conversion to a primitive runs code that the value refers to. -/
@[grind ←] theorem grounded_toPrimitive {v : Value} (hv : Known n v) (hint : Hint) :
    (toPrimitive v hint).Grounded n := by
  unfold toPrimitive
  grind

@[grind ←] theorem grounded_toText {v : Value} (hv : Known n v) : (toText v).Grounded n := by
  unfold toText
  grind

@[grind ←] theorem grounded_toNumber {v : Value} (hv : Known n v) : (toNumber v).Grounded n := by
  unfold toNumber
  grind

@[grind ←] theorem grounded_toInteger {v : Value} (hv : Known n v) : (toInteger v).Grounded n := by
  unfold toInteger
  grind

/-- A value is made a key by code it refers to. -/
@[grind ←] theorem grounded_toKey {v : Value} (hv : Known n v) : (toKey v).Grounded n := by
  unfold toKey
  grind

/-- Keys are texts and refer to nothing. -/
@[grind ←] theorem grounded_enumerableKeys (v : Value) : (enumerableKeys v).Grounded n := by
  unfold enumerableKeys
  grind

/-- The members of a value come from the heap. -/
@[grind ←] theorem grounded_iterate (v : Value) : (iterate v).Grounded n := by
  unfold iterate
  cases v with
  | object r =>
    refine .bind (grounded_object r) fun m o hm ho => ?_
    grind
  | _ => grind

/-- The prototype for a new object is read from the new target or is the fallback. -/
@[grind ←] theorem grounded_prototypeFor {newTarget : Value} (hnew : Known n newTarget)
    {fallback : Ref} (hf : Known n fallback) : (prototypeFor newTarget fallback).Grounded n := by
  unfold prototypeFor
  grind

/-- A chain is asked for the prototype of a known constructor. -/
@[grind ←] theorem grounded_instanceOf {v constructor : Value} 
    (hc : Known n constructor) : (instanceOf v constructor).Grounded n := by
  unfold instanceOf
  refine .bind (grounded_isCallable constructor) fun m isFunction hm _ => ?_
  grind

@[grind ←] theorem grounded_thrownDetails {v : Value} (hv : Known n v) :
    (thrownDetails v).Grounded n := by
  unfold thrownDetails
  grind

end Action
end Stepper.Machine
