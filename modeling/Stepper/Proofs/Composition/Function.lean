import Stepper.Machine.Class
import Stepper.Proofs.Composition.Basic

/-!
Reading and writing properties, making and calling functions, binding targets and building classes
are composed. A body's call is the one place here that looks at what a part came to: it takes what
the body returns, and lets a stop pass.
-/
namespace Stepper.Machine

open Syntax

namespace Means

/-- Means that reach down a tree. -/
structure Hereditary (K : Means) : Prop where
  hasSource : ∃ s, K.source s
  confined : ∀ {s t labels n}, K.source s → K.confined t labels n → ∀ c ∈ n.children,
    K.confined (t.ofChild s labels n c).1 (t.ofChild s labels n c).2 c
  clauses : ∀ {s t labels n c}, K.source s → K.confined t labels n → c ∈ n.children →
    Targets.isClause n c = true → ∀ d ∈ c.children, K.confined (t.ofChild s labels n c).1 [] d
  suits : ∀ {s t labels n}, K.source s → K.confined t labels n → K.leaks ∨ t.suits s n = true
  function : ∀ {n}, K.expression n → n.kind.isFunction = true → K.function n
  expression : ∀ {n}, K.function n → K.expression n
  /-- What a function holds can be left by a `return` and by nothing else. -/
  insideFunction : ∀ {n}, K.function n → ∀ c ∈ n.children, K.confined { returns := true } [] c

/-- A law that binds no tree asks nothing of the parts of one. -/
theorem Unbound.hereditary {K : Means} (hK : K.Unbound) : K.Hereditary where
  hasSource := ⟨"", hK.source ""⟩
  confined _ _ c _ := hK.confined _ _ c
  clauses _ _ _ _ d _ := hK.confined _ _ d
  suits _ _ := .inl hK.leaks
  function _ _ := hK.function _
  expression _ := hK.expression _
  insideFunction _ c _ := hK.confined _ _ c

/-- The law that allows everything goes down every tree. -/
@[grind ←] theorem hereditary_all : all.Hereditary := unbound_all.hereditary

theorem hereditary_level : level.Hereditary := unbound_level.hereditary

namespace Hereditary

section

variable {K : Means} (hK : K.Hereditary) {n c : Node}

include hK

/-- The parts of an expression of the law are expressions of the law. -/
theorem child (hn : K.expression n) (hc : c ∈ n.children) : K.expression c := by
  obtain ⟨s, hs⟩ := hK.hasSource
  obtain ⟨t, labels, hn⟩ := hn
  exact ⟨_, _, hK.confined hs hn c hc⟩

theorem child? (hn : K.expression n) {f : Field} (hc : n.child? f = some c) : K.expression c :=
  hK.child hn (List.mem_of_find?_eq_some hc)

theorem namedChild (hn : K.expression n) (hc : c ∈ n.namedChildren) : K.expression c :=
  hK.child hn (List.mem_filter.mp hc).1

theorem firstChild (hn : K.expression n) (hc : n.namedChildren.head? = some c) : K.expression c :=
  hK.namedChild hn (List.mem_of_mem_head? hc)

theorem parameterNode (hn : K.expression n) (hc : c ∈ n.parameterNodes) : K.expression c := by
  unfold Node.parameterNodes at hc
  cases hp : n.child? .parameters with
  | some ps => exact hK.namedChild (hK.child? hn hp) (by simpa only [hp] using hc)
  | none => exact hK.child? hn (Option.mem_toList.mp (by simpa only [hp] using hc))

/-- What jumps may reach is the same inside a node that changes nothing. -/
theorem plain {t : Targets} {labels : List String} (hn : K.confined t labels n)
    (hkind : Targets.changes n.kind = false) (hc : c ∈ n.children) : K.confined t [] c := by
  obtain ⟨s, hs⟩ := hK.hasSource
  simpa only [Targets.ofChild_of_not_changes hkind] using hK.confined hs hn c hc

/-- No signal leaves a static block. -/
theorem insideStaticBlock (hn : K.expression n) (hkind : n.kind = .classStaticBlock)
    (hc : c ∈ n.children) : K.confined {} [] c := by
  obtain ⟨s, hs⟩ := hK.hasSource
  obtain ⟨t, labels, hn⟩ := hn
  simpa [Targets.ofChild, hkind, Kind.isFunction, Kind.isLoop] using hK.confined hs hn c hc

end

mutual

/-- Parentheses may be taken off an expression of the law. -/
theorem unwrapParens {K : Means} (hK : K.Hereditary) (n : Node) (hn : K.expression n) :
    K.expression n.unwrapParens := by
  obtain ⟨kind, b, c, d, e, f, g, h, i, j, cs⟩ := n
  unfold Node.unwrapParens
  dsimp only
  split
  · exact unwrapFirst hK _ hn cs fun c hc => hK.child hn hc
  · exact hn

theorem unwrapFirst {K : Means} (hK : K.Hereditary) (outer : Node) (houter : K.expression outer)
    (ns : List Node) (hns : ∀ c ∈ ns, K.expression c) :
    K.expression (Node.unwrapFirst outer ns) := by
  cases ns with
  | nil => exact houter
  | cons n ns =>
    unfold Node.unwrapFirst
    split
    · exact unwrapParens hK n (hns n List.mem_cons_self)
    · exact unwrapFirst hK outer houter ns fun c hc => hns c (List.mem_cons_of_mem n hc)

end

end Hereditary

end Means

namespace Action

variable {K : Means} {t : Targets}

/-! ### Properties and conversions -/

section

variable (r : Ref) (k : Text) (v receiver : Value)

@[grind ←] theorem composed_newObject : newObject.Composed K t :=
  .bind .realm fun _ => composed_allocData (by nofun)

/-- A new array carries no closure. -/
@[grind ←] theorem composed_newArray (elements : List Value) : (newArray elements).Composed K t :=
  .bind .realm fun _ => .bind (composed_allocData (by nofun)) fun _ => composed_pure _

@[grind ←] theorem composed_newNative (name : Text) (f : Native) : (newNative name f).Composed K t :=
  .bind .realm fun _ => .bind (composed_allocData (by nofun)) fun _ => composed_pure _

/-- A property is defined by one change of an object. -/
@[grind ←] theorem composed_define : (define r k v).Composed K t :=
  composed_update r (fun _ h => h) fun o => o.evolves_set k _

@[grind ←] theorem composed_errorObject (kind : ErrorKind) (message : Text) :
    (errorObject kind message).Composed K t := by
  refine .bind .realm fun realm => ?_
  cases realm.errors.find? fun p => p.1 == kind with
  | none => exact composed_fault _
  | some p =>
    refine .bind (composed_object p.2) fun o => ?_
    split
    · exact .bind (composed_allocData (by nofun)) fun _ => composed_pure _
    · exact composed_fault _

@[grind ←] theorem composed_isCallable : (isCallable v).Composed K t :=
  .bind composed_heap fun _ => composed_pure _

@[grind ←] theorem composed_plainText : (plainText v).Composed K t :=
  .bind composed_heap fun _ => .bind .room fun _ => composed_ofExcept _

@[grind ←] theorem composed_plainInteger : (plainInteger v).Composed K t :=
  .bind composed_heap fun _ => .bind .room fun _ => composed_ofExcept _

@[grind ←] theorem composed_describe : (describe v).Composed K t := by
  cases v with
  | text t => exact composed_pure _
  | object r =>
    exact .bind (composed_object r) fun _ => composed_ite (composed_plainText _) (composed_pure _)
  | _ => exact composed_plainText _

/-- A slot gives its value or calls its getter. -/
@[grind ←] theorem composed_slotValue (s : Option Slot) : (slotValue s receiver).Composed K t := by
  match s with
  | none => exact composed_pure _
  | some (.value v) => exact composed_pure v
  | some (.accessor none _) => exact composed_pure _
  | some (.accessor (some g) _) => exact composed_call ..

/-- A chain is asked for a slot, and the slot for its value. -/
@[grind ←] theorem composed_getFrom (holder : Ref) : (getFrom holder k receiver).Composed K t :=
  .bind composed_heap fun _ => composed_slotValue ..

@[grind ←] theorem composed_getOwnOrInherited : (getOwnOrInherited r k).Composed K t := by
  refine .bind (composed_object r) fun o => ?_
  obtain ⟨proto, isError, frozen, properties, content⟩ := o
  have hnamed (name length : Value) : (if !properties.has k && k == Text.ofString "name"
      then pure name
      else if !properties.has k && k == Text.ofString "length" then pure length
      else getFrom r k (.object r)).Composed K t :=
    composed_ite (composed_pure _) (composed_ite (composed_pure _) (composed_getFrom ..))
  cases content with
  | array es =>
    refine composed_ite (composed_pure _) (.bind (composed_ofExcept _) fun i => ?_)
    cases i with
    | none => exact composed_getFrom ..
    | some i => exact composed_pure _
  | closure c => exact hnamed _ _
  | native name f => exact hnamed _ _
  | _ => exact composed_getFrom ..

/-- A property is read from an object or from the prototype of a primitive. -/
@[grind ←] theorem composed_get : (get v k).Composed K t := by
  cases v with
  | undefined => exact .bind (composed_plainText _) fun _ => composed_typeError _
  | null => exact .bind (composed_plainText _) fun _ => composed_typeError _
  | text t =>
    refine composed_ite (composed_pure _) (.bind (composed_ofExcept _) fun i => ?_)
    cases i with
    | none => exact .bind .realm fun _ => composed_getFrom ..
    | some i => exact composed_pure _
  | bool b => exact .bind .realm fun _ => composed_getFrom ..
  | number x => exact .bind .realm fun _ => composed_getFrom ..
  | object r => exact composed_getOwnOrInherited r k

@[grind ←] theorem composed_checkLength (n : Nat) : (checkLength n).Composed K t :=
  composed_ite (composed_fault _) (composed_pure ())

/-- Elements are replaced by one change of their array. -/
@[grind ←] theorem composed_setElements (f : Array Value → Array Value) :
    (setElements r f).Composed K t := by
  refine composed_update r (fun o ho => ?_) fun o => ?_
  · obtain ⟨proto, isError, frozen, properties, content⟩ := o
    cases content with
    | array es => exact Means.carries_of_content (by nofun)
    | _ => exact ho
  · obtain ⟨proto, isError, frozen, properties, content⟩ := o
    cases content with
    | array es => exact Object.evolves_content ..
    | _ => exact .refl _

/-- A setter is called, or the object is changed. -/
@[grind ←] theorem composed_setNamed : (setNamed r k v).Composed K t := by
  refine .bind composed_heap fun heap => ?_
  match heap.lookup k r with
  | none => exact composed_define ..
  | some (.value _) => exact composed_define ..
  | some (.accessor _ none) => exact composed_pure ()
  | some (.accessor _ (some s)) => exact .bind (composed_call ..) fun _ => composed_pure ()

/-- A property is written if the object is not frozen. -/
@[grind ←] theorem composed_set (target : Value) : (set target k v).Composed K t := by
  cases target with
  | undefined => exact .bind (composed_plainText _) fun _ => composed_typeError _
  | null => exact .bind (composed_plainText _) fun _ => composed_typeError _
  | object r =>
    refine .bind (composed_object r) fun o => composed_ite (composed_pure ())
      (composed_ite (composed_setNamed ..) (composed_ite ?_ ?_))
    · exact .bind (composed_plainInteger v) fun n =>
        .bind (composed_checkLength _) fun _ => composed_setElements ..
    · refine .bind (composed_ofExcept _) fun i => ?_
      cases i with
      | none => exact composed_setNamed ..
      | some i => exact .bind (composed_checkLength i) fun _ => composed_setElements ..
  | _ => exact composed_pure ()

/-- What comes of a change to an object that is not frozen, where a fault may come before it. -/
def outcomeUnlessFrozen (r : Ref) (x : Object → Except Fault α) (f : α → Object → Object)
    (w : World) : Outcome Unit :=
  if (w.heap.get r).frozen then .done () w
  else match x (w.heap.get r) with
    | .ok a => .done () ⟨w.heap.modify r (f a), w.scopes, w.depth⟩
    | .error e => .broke (.fault e) w

/-- What is done to an object unless it is frozen may be anything but a change of its kind. -/
theorem composed_unless_frozen {x : Object → Except Fault α} {f : α → Object → Object}
    (hf : ∀ a o, K.Carries o → K.Carries (f a o))
    (ho : ∀ a (o : Object), o.frozen = false → o.Evolves (f a o)) :
    (object r >>= fun o => if o.frozen then (pure () : Action Unit)
      else ofExcept (x o) >>= fun a => update r (f a)).Composed K t := by
  have houtcome : (object r >>= fun o => if o.frozen then (pure () : Action Unit)
      else ofExcept (x o) >>= fun a => update r (f a)) =
        fun _ w => (outcomeUnlessFrozen r x f w).course := by
    funext c w
    change (if (w.heap.get r).frozen then (pure () : Action Unit)
      else ofExcept (x (w.heap.get r)) >>= fun a => update r (f a)) c w = _
    unfold outcomeUnlessFrozen
    split
    · rfl
    · cases x (w.heap.get r) <;> rfl
  rw [houtcome]
  refine .atOnce (outcomeUnlessFrozen r x f) (fun w hw => ?_) fun w => ?_
  · unfold outcomeUnlessFrozen
    split
    · exact hw
    · cases x (w.heap.get r) with
      | ok a => exact hw.modify (hf a) r
      | error e => exact ⟨hw, .inr trivial⟩
  · unfold outcomeUnlessFrozen
    split
    · exact .refl w
    · next hthawed =>
      cases x (w.heap.get r) with
      | ok a =>
        exact .of_scopes ⟨⟨w.heap.evolves_modify r (ho a _ (by simpa using hthawed)), .refl _⟩, rfl⟩
          rfl
      | error e => exact .refl w

/-- Where an own property is to be found: among the elements, or with the others. -/
def ownIndex? (o : Object) : Except Fault (Option Nat) :=
  if o.isArray then arrayIndex? k else .ok none

/-- An object without an own property; an element becomes undefined. -/
def without (o : Object) : Option Nat → Object
  | some i => o.withElements (o.elements.setIfInBounds i .undefined)
  | none => { o with properties := o.properties.erase k }

theorem delete_object : delete (.object r) k = (object r >>= fun o =>
    if o.frozen then (pure () : Action Unit)
    else ofExcept (ownIndex? k o) >>= fun i => update r fun o => without k o i) := by
  have hremoval (i : Option Nat) : (match i with
      | some i => setElements r fun es => es.setIfInBounds i .undefined
      | none => update r fun o => { o with properties := o.properties.erase k }) =
        update r fun o => without k o i := by
    cases i with
    | none => rfl
    | some i =>
      refine congrArg (update r) (funext fun o => ?_)
      obtain ⟨proto, isError, frozen, properties, content⟩ := o
      cases content <;> rfl
  funext c w
  refine congrFun (congrFun (congrArg (object r >>= ·) (funext fun o => ?_)) c) w
  unfold ownIndex?
  simp only [← hremoval]
  split
  · rfl
  · split <;> rfl

@[grind ←] theorem composed_delete : (delete v k).Composed K t := by
  cases v with
  | object r =>
    rw [delete_object]
    refine composed_unless_frozen r (fun i o ho => ?_) fun i o hthawed => ?_
    · obtain ⟨proto, isError, frozen, properties, content⟩ := o
      cases i with
      | none => exact ho
      | some i => cases content <;> first | exact ho | exact Means.carries_of_content (by nofun)
    · have hfrozen : o.frozen ≠ true := by simp [hthawed]
      obtain ⟨proto, isError, frozen, properties, content⟩ := o
      cases i with
      | none => exact ⟨rfl, fun hf => absurd hf hfrozen, fun hf => absurd hf hfrozen⟩
      | some i => cases content <;>
          exact ⟨rfl, fun hf => absurd hf hfrozen, fun hf => absurd hf hfrozen⟩
  | _ => exact composed_pure ()

/-- The named methods are called in turn until one gives a primitive value. -/
@[grind ←] theorem composed_primitiveBy (names : List Text) : (primitiveBy v names).Composed K t := by
  induction names with
  | nil => exact composed_typeError _
  | cons name names ih =>
    refine .bind (composed_get name v) fun method =>
      .bind (composed_isCallable method) fun _ => composed_ite ?_ ih
    exact .bind (composed_call ..) fun _ => composed_ite (composed_pure _) ih

/-- A conversion to a primitive is made of calls. -/
@[grind ←] theorem composed_toPrimitive (hint : Hint) : (toPrimitive v hint).Composed K t := by
  cases v with
  | object r =>
    refine .bind (composed_object r) fun o => ?_
    obtain ⟨proto, isError, frozen, properties, content⟩ := o
    cases content with
    | date time =>
      cases hint with
      | any => exact composed_pure _
      | number => exact composed_pure _
      | text => exact composed_primitiveBy ..
    | _ => cases hint <;> exact composed_primitiveBy ..
  | _ => exact composed_pure _

@[grind ←] theorem composed_toText : (toText v).Composed K t :=
  .bind (composed_toPrimitive v .text) fun p => composed_plainText p

@[grind ←] theorem composed_toNumber : (toNumber v).Composed K t :=
  .bind (composed_toPrimitive v .number) fun _ => .bind composed_heap fun _ =>
    .bind .room fun _ => composed_ofExcept _

@[grind ←] theorem composed_toInteger : (toInteger v).Composed K t :=
  .bind (composed_toNumber v) fun _ => composed_pure _

@[grind ←] theorem composed_toKey : (toKey v).Composed K t := by
  cases v with
  | text t => exact composed_pure t
  | number x => exact composed_pure _
  | _ => exact composed_toText _

/-- The keys are taken from the heap as it is. -/
@[grind ←] theorem composed_enumerableKeys : (enumerableKeys v).Composed K t := by
  cases v with
  | text t => exact composed_pure _
  | object r =>
    exact .bind (composed_object r) fun _ => .bind (composed_ofExcept _) fun _ => composed_pure _
  | _ => exact composed_pure _

/-- The members of a value are taken from the heap as it is. -/
@[grind ←] theorem composed_iterate : (iterate v).Composed K t := by
  have hrefused : (do typeError ((← describe v) ++ (" is not iterable" : Text)) :
      Action (List Value)).Composed K t := .bind (composed_describe v) fun _ => composed_typeError _
  cases v with
  | text t => exact composed_pure _
  | object r =>
    refine .bind (composed_object r) fun o => ?_
    obtain ⟨proto, isError, frozen, properties, content⟩ := o
    cases content with
    | array es => exact composed_pure _
    | set entries => exact composed_pure _
    | map entries => exact composed_collect (fun p => composed_newArray _) _
    | _ => exact hrefused
  | _ => exact hrefused

@[grind ←] theorem composed_prototypeFor (newTarget : Value) (fallback : Ref) :
    (prototypeFor newTarget fallback).Composed K t := by
  cases newTarget with
  | object r => exact .bind (composed_get ..) fun _ => composed_pure _
  | _ => exact composed_pure _

/-- The chain is asked for the prototype of a constructor. -/
@[grind ←] theorem composed_instanceOf (constructor : Value) :
    (instanceOf v constructor).Composed K t := by
  refine .bind (composed_isCallable _) fun isCallable => ?_
  extract_lets rest
  have hrest (u) : (rest u).Composed K t := by
    cases v with
    | object r =>
      refine .bind (composed_get ..) fun proto => ?_
      cases proto with
      | object p => exact .bind composed_heap fun _ => composed_pure _
      | _ => exact composed_pure false
    | _ => exact composed_pure false
  exact composed_ite (.bind (composed_typeError _) hrest) (hrest ())

@[grind ←] theorem composed_thrownDetails : (thrownDetails v).Composed K t := by
  cases v with
  | object r =>
    refine .bind (composed_get ..) fun name => .bind (composed_get ..) fun message => ?_
    grind
  | _ => exact .bind (composed_toText _) fun _ => composed_pure _

end

/-! ### Functions and calls -/

section

variable {n : Node} (e : ScopeRef) (name : Text) (args : List Value) (f : Ref) (c : Closure)

@[grind ←] theorem composed_part (n : Option Node) : (part n).Composed K t := by
  cases n with
  | none => exact composed_fault _
  | some n => exact composed_pure n

/-- What is done with a part is done with one that is there. -/
@[grind ←] theorem composed_part_bind {o : Option Node} {g : Node → Action α}
    (h : ∀ m, o = some m → (g m).Composed K t) : (part o >>= g).Composed K t := by
  cases o with
  | none => exact composed_fault .wrongKind
  | some m => exact h m rfl

@[grind ←] theorem composed_evalNamed (hn : K.expression n) : (evalNamed n e name).Composed K t := by
  refine .bind (composed_eval e hn) fun v => composed_ite ?_ (composed_pure v)
  cases v with
  | object r =>
    refine .bind (composed_update r (fun o ho => ?_) fun o => ?_) fun _ => composed_pure _
    · obtain ⟨proto, isError, frozen, properties, content⟩ := o
      cases content with
      | closure c =>
        dsimp only
        split
        · intro c' hc'
          cases hc'
          exact ⟨(ho c rfl).node, (ho c rfl).fields⟩
        · exact ho
      | _ => exact ho
    · split
      · split
        · exact o.evolves_content _
        · exact .refl o
      · exact .refl o
  | _ => exact composed_pure _

/-- A function of the law is made as a closure with a node of the law. -/
theorem composed_makeFunction (hn : K.function n) (name : Text) (home : Option Ref)
    (isMethod : Bool) : (makeFunction n e name home isMethod).Composed K t := by
  unfold makeFunction
  extract_lets isArrow rest
  have hrest (written) : (rest written).Composed K t := by
    unfold rest
    extract_lets name bindsItself rest
    have hrest (scope) (hscope : bindsItself = true → K.opens scope) :
        (rest scope).Composed K t := by
      unfold rest
      extract_lets closure
      refine .bind .realm fun realm => .bind (composed_alloc fun c hc => ?_) fun f => ?_
      · cases hc
        exact ⟨fun m hm => by cases hm; exact hn, fun p hp => by cases hp⟩
      extract_lets done prototype
      have hprototype (u) : (prototype u).Composed K t :=
        composed_ite (.bind composed_newObject fun _ => .bind (composed_define ..) fun _ =>
          .bind (composed_define ..) fun _ => composed_pure _) (composed_pure _)
      exact composed_ite_of (fun hbinds => .bind (composed_declare (hscope hbinds) ..) hprototype)
        fun _ => hprototype ()
    exact composed_ite_of
      (fun _ => composed_childScope_bind fun inside hinside => hrest inside fun _ => hinside)
      fun hfree => hrest e fun hbinds => absurd hbinds hfree
  cases n.child? .name with
  | none => exact hrest none
  | some m => exact .bind (composed_textOf m) fun name => hrest (some name)

variable (hK : K.Hereditary) {e} (he : K.opens e)

include hK he

theorem composed_hoistBlock {statements : List Node} (hs : ∀ n ∈ statements, K.expression n) :
    (hoistBlock statements e).Composed K t := by
  refine .source fun source _ => composed_each_of_mem fun n hn => ?_
  have hfunction (hkind : n.kind.isFunction = true) : (do
      let name ← textOf (← part (n.child? .name))
      declare e name .function (some (← makeFunction n e [] none false))).Composed K t :=
    .bind (composed_part _) fun m => .bind (composed_textOf m) fun _ =>
      .bind (composed_makeFunction e (hK.function (hs n hn) hkind) [] none false) fun _ =>
        composed_declare he ..
  cases hkind : n.kind with
  | functionDeclaration => exact hfunction (by rw [hkind]; rfl)
  | generatorFunctionDeclaration => exact hfunction (by rw [hkind]; rfl)
  | lexicalDeclaration => exact composed_each (fun _ => composed_declare he ..) _
  | classDeclaration =>
    exact .bind (composed_part _) fun m => .bind (composed_textOf m) fun _ => composed_declare he ..
  | _ => exact composed_pure ()

/-- Variables are declared and functions made, before a body runs. -/
theorem composed_hoistFunction {body : Node} (hbody : ∀ n ∈ body.namedChildren, K.expression n) :
    (hoistFunction body e).Composed K t :=
  .source fun _ _ => .bind (composed_each (fun _ => composed_declare he ..) _) fun _ =>
    composed_hoistBlock hK he hbody

/-- Parameters are bound one after the other, and the rest goes to an array. -/
theorem composed_bindParameters {params : List Node} (hparams : ∀ p ∈ params, K.expression p) :
    (bindParameters params args e).Composed K t := by
  induction params generalizing args with
  | nil => exact composed_pure ()
  | cons p ps ih =>
    have hp := hparams p List.mem_cons_self
    refine composed_ite (composed_part_bind fun m hm => ?_)
      (.bind (composed_bindTarget e hp _ fun _ _ => he) fun _ =>
        ih _ fun q hq => hparams q (List.mem_cons_of_mem p hq))
    exact .bind (composed_newArray args) fun _ =>
      composed_bindTarget e (hK.firstChild hp hm) _ fun _ _ => he

omit hK he

/-- A call opens one scope. -/
@[grind ←] theorem composed_callScope (this : Option Value) (newTarget : Option Ref) :
    (callScope f c this newTarget).Composed K t := composed_allocScope _

/-- Fields are initialized one after the other. -/
@[grind ←] theorem composed_initializeFields (this : Ref) :
    (initializeFields f this).Composed K t := by
  refine .look f fun o ho => ?_
  obtain ⟨proto, isError, frozen, properties, content⟩ := o
  cases content with
  | closure c =>
    refine composed_each_of_mem fun field hfield => .bind (composed_allocScope _) fun e => ?_
    cases hvalue : field.2 with
    | none => exact composed_define ..
    | some n =>
      exact .bind (composed_evalNamed e _ ((ho c rfl).fields field hfield n hvalue)) fun _ =>
        composed_define ..
  | _ => exact composed_pure ()

/-- The class that a constructor belongs to, and what the class extends. -/
def extendedBy (h : Heap) (s : Scope) : Option (Ref × Ref) :=
  match s.function with
  | none => none
  | some f => if (closureOf? (h.get f)).isSome then (h.get f).proto.map fun p => (f, p) else none

/-- What a constructor does with the object that the class it extends has made. -/
def takeOver (f : Ref) (this : Value) : Action Unit :=
  match this with
  | .object r => initializeFields f r
  | _ => fault .wrongKind

/-- Calls the constructor that a class extends, by what is known of the scope of the own one. -/
def superCall (h : Heap) (s : Scope) (e : ScopeRef) (args : List Value) : Action Unit :=
  match extendedBy h s with
  | none => typeError "Super constructor is not a constructor"
  | some (f, parent) =>
    if !h.isCallable (.object parent) then typeError "Super constructor is not a constructor"
    else
      decideThis e (construct (.object parent) args (.object (s.newTarget.getD f))) >>= takeOver f

/-- To call the constructor that a class extends is to decide `this` by it, and then to give that
the fields of the class. -/
theorem superConstruct_eq (args : List Value) (e : ScopeRef) : superConstruct args e =
    scopes >>= fun ss => heap >>= fun h =>
      superCall h (ss.get (ss.functionScope e)) (ss.functionScope e) args := by
  funext c w
  change superConstruct args e c w =
    superCall w.heap (w.scopes.get (w.scopes.functionScope e)) (w.scopes.functionScope e) args c w
  -- what the own class extends is looked up in the state that the call is made in
  have hextended (extended : Option (Ref × Ref)) : (match extended with
      | none => typeError "Super constructor is not a constructor"
      | some (f, parent) => do
        if !(← isCallable (.object parent)) then typeError "Super constructor is not a constructor"
        if (w.scopes.get (w.scopes.functionScope e)).this.isSome then interrupt decidedTwice
        let this ← construct (.object parent) args
          (.object ((w.scopes.get (w.scopes.functionScope e)).newTarget.getD f))
        setThis (w.scopes.functionScope e) this
        takeOver f this : Action Unit) c w =
      (match extended with
      | none => typeError "Super constructor is not a constructor"
      | some (f, parent) =>
        if !w.heap.isCallable (.object parent) then
          typeError "Super constructor is not a constructor"
        else
          decideThis (w.scopes.functionScope e) (construct (.object parent) args
            (.object ((w.scopes.get (w.scopes.functionScope e)).newTarget.getD f))) >>= takeOver f :
        Action Unit) c w := by
    cases extended with
    | none => rfl
    | some p =>
      change (if (!w.heap.isCallable (.object p.2)) = true then _ else _ : Action Unit) c w =
        (if (!w.heap.isCallable (.object p.2)) = true then _ else _ : Action Unit) c w
      split
      · rfl
      · change (if (w.scopes.get (w.scopes.functionScope e)).this.isSome = true then _ else _ :
          Action Unit) c w = (decideThis _ _ c w).bind _
        rw [decideThis_eq]
        split
        · rfl
        · exact (Course.bind_assoc (construct (.object p.2) args _ c w)
            (fun v u => .done v (u.withThis _ v)) _).symm
  unfold superCall extendedBy
  refine Eq.trans ?_ (hextended _)
  change (match (w.scopes.get (w.scopes.functionScope e)).function with
    | none => _
    | some f => _ : Action Unit) c w = _
  cases (w.scopes.get (w.scopes.functionScope e)).function with
  | none => rfl
  | some f => rfl

/-- The parent is constructed, and the receiver is bound once. -/
@[grind ←] theorem composed_superConstruct : (superConstruct args e).Composed K t := by
  rw [superConstruct_eq]
  refine .bind composed_scopes fun ss => .bind composed_heap fun h => ?_
  unfold superCall
  split
  · exact composed_typeError _
  · next f parent _ =>
    refine composed_ite (composed_typeError _) (.bind (.decides _ (composed_construct ..)) fun v => ?_)
    cases v with
    | object r => exact composed_initializeFields f r
    | _ => exact composed_fault _

@[grind ←] theorem composed_notConstructor (v : Value) : (notConstructor v).Composed K t :=
  .bind (composed_describe v) fun _ => composed_typeError _

end

section

variable {e : ScopeRef} (args : List Value) (c : Closure) (hK : K.Hereditary) (he : K.opens e)

/-- What a body may come to is no signal but a `return`, and that ends here. -/
theorem composed_finishBody {r : Except Interrupt Value}
    (hr : ∀ i, r = .error i → K.Admits { returns := true } i) : (finishBody r).Composed K t := by
  unfold finishBody
  split
  · exact composed_pure _
  · exact composed_pure _
  · exact composed_raise ..
  · next i hreturned _ =>
    refine composed_interrupt ((hr i rfl).imp_right fun hi => ?_)
    rcases Targets.returned_of_admits hi with ⟨v, rfl⟩ | hi
    · exact absurd rfl (hreturned v)
    · exact Targets.admits_of_not_isSignal hi

include hK he

/-- A body may end by returning, and by nothing else that its caller could not meet. -/
theorem composed_runBody {n : Node} (hn : K.function n) :
    (runBody c n e args).Composed K { returns := true } := by
  have hbody (body : Node) (hbody : body ∈ n.children) :
      (if body.kind != .statementBlock then eval body e
      else do
        hoistFunction body e
        each (fun s => exec s e) body.namedChildren
        return .undefined).Composed K { returns := true } := by
    split
    · exact composed_eval e (hK.child (hK.expression hn) hbody)
    · next hkind =>
      have hkind : body.kind = .statementBlock := by simpa using hkind
      have hstatements : ∀ s ∈ body.namedChildren, K.confined { returns := true } [] s := fun s hs =>
        hK.plain (hK.insideFunction hn body hbody) (by rw [hkind]; rfl) (List.mem_filter.mp hs).1
      exact .bind (composed_hoistFunction hK he fun s hs => ⟨_, _, hstatements s hs⟩) fun _ =>
        .bind (composed_each_of_mem fun s hs => composed_exec he (hstatements s hs)) fun _ =>
          composed_pure _
  unfold runBody
  extract_lets rest
  have hrest (u) : (rest u).Composed K { returns := true } :=
    .bind (composed_bindParameters args hK he fun _ hp =>
        hK.parameterNode (hK.expression hn) hp) fun _ =>
      composed_part_bind fun m hm => hbody m (List.mem_of_find?_eq_some hm)
  exact composed_ite (.bind (composed_newArray args) fun _ =>
    .bind (composed_declare he ..) fun _ => hrest ()) (hrest ())

/-- What a body returns ends with it; a stop goes on to the caller. -/
theorem composed_body (hdeep : K.descends) {n : Node} (hn : K.function n) :
    (attempt (deeper (runBody c n e args)) >>= finishBody).Composed K t :=
  .handle (.deeper hdeep (composed_runBody args c hK he hn)) (fun _ _ hr => composed_finishBody hr)
    rfl

theorem composed_staticBlock {n b : Node} (hn : K.expression n) (hkind : n.kind = .classStaticBlock)
    (hb : n.child? .body = some b) : (exec b e).Composed K t :=
  .exec b e [] (hK.insideStaticBlock hn hkind (List.mem_of_find?_eq_some hb)) (Targets.none_le t) he

end

section

variable {e : ScopeRef} (args : List Value) (f : Ref) {c : Closure} (hK : K.Hereditary)
    (hdeep : K.descends) (hc : K.Covers c)

include hK hdeep hc

/-- A body runs one level deeper, if the law goes down into bodies. -/
@[grind ←] theorem composed_invoke (he : K.opens e) : (invoke c e args).Composed K t := by
  unfold invoke
  cases hnode : c.node with
  | none =>
    exact composed_ite (.bind (composed_superConstruct ..) fun _ => composed_pure _)
      (composed_pure _)
  | some n =>
    have hbody := composed_body (t := t) args c hK he hdeep (hc.node n hnode)
    grind

/-- A closure is called in a scope of its own. -/
@[grind ←] theorem composed_callClosure (this : Value) : (callClosure f c this args).Composed K t := by
  have hcall : (do invoke c (← callScope f c (some this) none) args).Composed K t :=
    .within _ fun e he => composed_invoke args hK hdeep hc he
  exact composed_ite (.bind (composed_typeError _) fun _ => hcall) hcall

/-- A new object is made and its fields set, or the parent makes it. -/
@[grind ←] theorem composed_constructClosure (newTarget : Value) :
    (constructClosure f c args newTarget).Composed K t := by
  unfold constructClosure
  refine composed_ite (composed_notConstructor _) ?_
  extract_lets rest
  have hrest (this) : (rest this).Composed K t := by
    refine .within _ fun e he => .bind (composed_invoke args hK hdeep hc he) fun v => ?_
    cases v with
    | object r => exact composed_pure _
    | _ => exact composed_this e
  refine composed_ite (hrest none) (.bind .realm fun _ => ?_)
  exact .bind (composed_prototypeFor ..) fun _ => .bind (composed_allocData (by nofun)) fun _ =>
    .bind (composed_initializeFields ..) fun _ => hrest _

end

/-! ### Targets -/

section

variable {n : Node} (e : ScopeRef) (r : Reference) (v : Value) (mode : BindMode)

@[grind ←] theorem composed_literalText (n : Node) : (literalText n).Composed K t := by
  refine .source fun c _ => .bind (composed_mapM (fun m => ?_) _) fun _ =>
    composed_pure _
  split
  · exact composed_pure _
  · exact composed_ofExcept _
  · exact composed_pure _

@[grind ←] theorem composed_numberText (n : Node) : (numberText n).Composed K t :=
  .bind (composed_textOf n) fun _ => composed_ofExcept _

/-- A reference is read as a name or as a property. -/
@[grind ←] theorem composed_readReference : (readReference r e).Composed K t := by
  cases r with
  | name n => exact composed_lookup e n
  | property v k => exact composed_get k v

/-- A name is assigned where the law allows it, and a property is set. -/
@[grind ←] theorem composed_writeReference (ha : K.assigns e) :
    (writeReference r e v).Composed K t := by
  cases r with
  | name n => exact composed_assign ha n v
  | property o k => exact composed_set k v o

/-- A name is declared where the law allows it, or assigned. -/
@[grind ←] theorem composed_bindName (he : ∀ kind, mode = .declare kind → K.opens e)
    (ha : K.assigns e) (name : String) : (bindName name v e mode).Composed K t := by
  cases mode with
  | assign => exact composed_assign ha name v
  | var => exact composed_assign ha name v
  | declare kind => exact composed_declare (he kind rfl) ..

@[grind ←] theorem composed_nameHint (n : Node) : (nameHint n).Composed K t := by
  unfold nameHint
  grind

@[grind ←] theorem composed_invalidTarget (n : Node) : (invalidTarget n).Composed K t :=
  composed_raise ..

variable (hK : K.Hereditary) (hn : K.expression n)

include hK

include hn in
/-- A key is written or computed. -/
@[grind ←] theorem composed_propertyKey : (propertyKey n e).Composed K t := by
  unfold propertyKey
  split
  · exact composed_literalText n
  · exact .bind (composed_numberText n) fun _ => composed_pure _
  · exact composed_part_bind fun m hm =>
      .bind (composed_eval e (hK.firstChild hn hm)) fun _ => composed_toKey _
  · exact .bind (composed_textOf n) fun _ => composed_pure _

include hn in
@[grind ←] theorem composed_memberObject : (memberObject n e).Composed K t :=
  composed_part_bind fun _ ho => composed_ite (composed_this e) (composed_evalHead e (hK.child? hn ho))

include hn in
@[grind ←] theorem composed_memberKey : (memberKey n e).Composed K t :=
  composed_ite
    (.bind (composed_part _) fun _ => .bind (composed_textOf _) fun _ => composed_pure _)
    (composed_part_bind fun _ hi => .bind (composed_eval e (hK.child? hn hi)) fun _ =>
      composed_toKey _)

include hn in
/-- The parts of a reference are evaluated once. -/
@[grind ←] theorem composed_reference : (reference n e).Composed K t := by
  have hinside := hK.unwrapParens n hn
  have hproperty : (do
      let v ← memberObject n.unwrapParens e
      return .property v (← memberKey n.unwrapParens e) : Action Reference).Composed K t :=
    .bind (composed_memberObject e hK hinside) fun _ =>
      .bind (composed_memberKey e hK hinside) fun _ => composed_pure _
  unfold reference
  extract_lets inside
  split
  · exact .bind (composed_textOf _) fun _ => composed_pure _
  · exact .bind (composed_textOf _) fun _ => composed_pure _
  · exact hproperty
  · exact hproperty
  · exact composed_raise ..

variable (he : ∀ kind, mode = .declare kind → K.opens e)

include he

@[grind ←] theorem composed_bindItems (items : List Value) {cs : List Node}
    (hcs : ∀ c ∈ cs, K.expression c) (i : Nat) : (bindItems items e mode cs i).Composed K t := by
  induction cs generalizing i with
  | nil => exact composed_pure ()
  | cons c cs ih =>
    have hc := hcs c List.mem_cons_self
    have hrest (i) := ih (fun d hd => hcs d (List.mem_cons_of_mem c hd)) i
    refine composed_ite (hrest i) (composed_ite (hrest _) (composed_ite ?_ ?_))
    · exact composed_part_bind fun m hm => .bind (composed_newArray _) fun _ =>
        .bind (composed_bindTarget e (hK.firstChild hc hm) _ he) fun _ => hrest i
    · exact .bind (composed_bindTarget e hc _ he) fun _ => hrest i

include hn in
/-- The members of a value are bound one after the other. -/
@[grind ←] theorem composed_bindArray : (bindArray n v e mode).Composed K t := by
  have hitems (items) := composed_bindItems (t := t) e mode hK he items (fun _ hc => hK.child hn hc) 0
  unfold bindArray
  grind

@[grind ←] theorem composed_bindFields {cs : List Node} (hcs : ∀ c ∈ cs, K.expression c)
    (used : List Text) : (bindFields v e mode cs used).Composed K t := by
  induction cs generalizing used with
  | nil => exact composed_pure ()
  | cons c cs ih =>
    have hc := hcs c List.mem_cons_self
    have hrest (used) := ih (fun d hd => hcs d (List.mem_cons_of_mem c hd)) used
    have hkey (k : Text) : (do
        bindTarget c (← get v k) e mode
        bindFields v e mode cs (k :: used)).Composed K t :=
      .bind (composed_get ..) fun _ => .bind (composed_bindTarget e hc _ he) fun _ => hrest _
    unfold bindFields
    split
    · refine composed_part_bind fun key hkey =>
        .bind (composed_propertyKey e hK (hK.child? hc hkey)) fun k => ?_
      exact composed_part_bind fun target htarget => .bind (composed_get ..) fun _ =>
        .bind (composed_bindTarget e (hK.child? hc htarget) _ he) fun _ => hrest _
    · exact .bind (composed_textOf c) fun _ => hkey _
    · exact .bind (composed_part _) fun m => .bind (composed_textOf m) fun _ => hkey _
    · refine .bind composed_newObject fun r => .bind (composed_enumerableKeys v) fun keys =>
        .bind (composed_each (fun k => .bind (composed_get ..) fun _ => composed_define ..) _)
          fun _ => ?_
      exact composed_part_bind fun m hm =>
        .bind (composed_bindTarget e (hK.firstChild hc hm) _ he) fun _ => hrest used
    · exact hrest used

include hn in
/-- The properties of a value are bound one after the other. -/
@[grind ←] theorem composed_bindObject : (bindObject n v e mode).Composed K t := by
  have hfields := composed_bindFields (t := t) e v mode hK he (fun c hc => hK.namedChild hn hc) []
  unfold bindObject
  grind

include hn in
/-- Every pattern is bound by reads and by bindings of its parts. -/
theorem composed_bindPattern (ha : K.assigns e) : (bindPattern n v e mode).Composed K t := by
  have hdefault : (do
      let left ← part (n.child? .left)
      let v ← if v.isUndefined then
          evalNamed (← part (n.child? .right)) e (← nameHint left)
        else pure v
      bindTarget left v e mode).Composed K t := by
    refine composed_part_bind fun left hleft => ?_
    extract_lets rest
    have hrest (v) : (rest v).Composed K t := composed_bindTarget e (hK.child? hn hleft) _ he
    refine composed_ite (composed_part_bind fun right hright => ?_) (hrest v)
    exact .bind (composed_nameHint left) fun _ =>
      .bind (composed_evalNamed e _ (hK.child? hn hright)) hrest
  have hmember : (if mode = .assign then do writeReference (← reference n e) e v
      else invalidTarget n).Composed K t :=
    composed_ite (.bind (composed_reference e hK hn) fun _ => composed_writeReference e _ v ha)
      (composed_invalidTarget n)
  unfold bindPattern
  split
  · exact .bind (composed_textOf n) fun _ => composed_bindName e v mode he ha _
  · exact .bind (composed_textOf n) fun _ => composed_bindName e v mode he ha _
  · exact hdefault
  · exact hdefault
  · exact composed_bindArray e v mode hK hn he
  · exact composed_bindObject e v mode hK hn he
  · exact composed_part_bind fun m hm => composed_bindTarget e (hK.firstChild hn hm) _ he
  · exact hmember
  · exact hmember
  · exact composed_invalidTarget n

end

/-! ### Object literals and classes -/

section

variable (r : Ref) (k : Text) {n : Node} (e : ScopeRef)

@[grind ←] theorem composed_defineHalf (isGetter : Bool) (f : Ref) :
    (defineHalf r k isGetter f).Composed K t := by
  refine composed_update r (fun o ho => ?_) fun o => ?_
  · split
    exact ho
  · split
    exact o.evolves_set k _

@[grind ←] theorem composed_defineMethod (f : Value) (n : Node) :
    (defineMethod r k f n).Composed K t := by
  refine composed_ite ?_ (composed_define ..)
  cases f with
  | object f => exact composed_defineHalf ..
  | _ => exact composed_fault _

@[grind ←] theorem composed_prototypeParent (h : Heritage) : (prototypeParent h).Composed K t := by
  cases h with
  | none => exact .bind .realm fun _ => composed_pure _
  | null => exact composed_pure none
  | parent r => exact .bind (composed_get ..) fun _ => composed_pure _

variable (hK : K.Hereditary) (hn : K.expression n)

include hK hn

/-- A member of an object literal is defined by one change. -/
@[grind ←] theorem composed_evalMember : (evalMember r e n).Composed K t := by
  unfold evalMember
  split
  · refine composed_part_bind fun key hkey =>
      .bind (composed_propertyKey e hK (hK.child? hn hkey)) fun k => ?_
    exact composed_part_bind fun value hvalue =>
      .bind (composed_evalNamed e k (hK.child? hn hvalue)) fun _ => composed_define ..
  · exact .bind (composed_textOf n) fun name => .bind (composed_lookup e name) fun _ =>
      composed_define ..
  · refine composed_part_bind fun m hm => .bind (composed_eval e (hK.firstChild hn hm)) fun v => ?_
    exact composed_ite (.bind (composed_enumerableKeys v) fun keys => composed_each
      (fun k => .bind (composed_get ..) fun _ => composed_define ..) keys) (composed_pure ())
  · next hkind =>
    refine composed_part_bind fun key hkey =>
      .bind (composed_propertyKey e hK (hK.child? hn hkey)) fun k => ?_
    exact .bind (composed_makeFunction e (hK.function hn (by rw [hkind]; rfl)) k (some r) true)
      fun _ => composed_defineMethod ..
  · exact composed_pure ()

/-- An object literal is a new object and its members. -/
@[grind ←] theorem composed_evalObject : (evalObject n e).Composed K t :=
  .bind composed_newObject fun r => .bind (composed_each_of_mem fun _ hm =>
    composed_evalMember r e hK (hK.namedChild hn hm)) fun _ => composed_pure _

@[grind ←] theorem composed_evalHeritage : (evalHeritage n e).Composed K t := by
  unfold evalHeritage
  cases hfound : n.children.find? fun c => c.kind == .classHeritage with
  | none => exact composed_pure _
  | some h =>
    have hh := hK.child hn (List.mem_of_find?_eq_some hfound)
    refine composed_part_bind fun m hm => .bind (composed_eval e (hK.firstChild hh hm)) fun v => ?_
    cases v <;> grind

end

section

variable {n : Node} (e : ScopeRef) (hK : K.Hereditary)

include hK

/-- The static parts that are kept for the end can be run in it. -/
theorem composed_evalMembers {constructor proto : Ref} {written : Option Node} {ms : List Node}
    (hms : ∀ m ∈ ms, K.expression m) {statics : List StaticPart}
    (hstatics : ∀ s ∈ statics, ∀ e, K.opens e → (runStatic constructor e s).Composed K t)
    {g : List StaticPart → Action α}
    (hg : ∀ ss, (∀ s ∈ ss, ∀ e, K.opens e → (runStatic constructor e s).Composed K t) →
      (g ss).Composed K t) :
    (evalMembers constructor proto written e ms statics >>= g).Composed K t := by
  induction ms generalizing statics with
  | nil => exact hg _ fun s hs => hstatics s (List.mem_reverse.mp hs)
  | cons m ms ih =>
    have hm := hms m List.mem_cons_self
    have hrest {ss : List StaticPart}
        (hss : ∀ s ∈ ss, ∀ e, K.opens e → (runStatic constructor e s).Composed K t) :
        (evalMembers constructor proto written e ms ss >>= g).Composed K t :=
      ih (fun n hn => hms n (List.mem_cons_of_mem m hn)) hss
    have hkept {s} (hs : ∀ e, K.opens e → (runStatic constructor e s).Composed K t) :=
      hrest (List.forall_mem_cons.mpr ⟨hs, hstatics⟩)
    unfold evalMembers
    split
    · next hkind =>
      have hfunction := hK.function hm (by rw [hkind]; rfl)
      simp only [ite_bind, bind_assoc]
      refine composed_ite (hrest hstatics) (composed_part_bind fun key hkey => ?_)
      exact .bind (composed_propertyKey e hK (hK.child? hm hkey)) fun k =>
        .bind (composed_makeFunction e hfunction ..) fun _ =>
          .bind (composed_defineMethod ..) fun _ => hrest hstatics
    · simp only [ite_bind, bind_assoc]
      refine composed_part_bind fun key hkey =>
        .bind (composed_propertyKey e hK (hK.child? hm hkey)) fun k =>
          composed_ite (hkept fun e _ => ?_) (.bind (composed_update _ (fun o ho => ?_) fun o => ?_)
            fun _ => hrest hstatics)
      · cases hvalue : m.child? .value with
        | none => exact composed_define ..
        | some n => exact .bind (composed_evalNamed e k (hK.child? hm hvalue)) fun _ => composed_define ..
      · obtain ⟨proto, isError, frozen, properties, content⟩ := o
        cases content with
        | closure c =>
          intro c' hc'
          cases hc'
          refine ⟨(ho c rfl).node, fun p hp n hn => ?_⟩
          rcases List.mem_append.mp hp with hp | hp
          · exact (ho c rfl).fields p hp n hn
          · obtain rfl := List.mem_singleton.mp hp
            exact hK.child? hm hn
        | _ => exact ho
      · split
        · exact o.evolves_content _
        · exact .refl o
    · next hkind =>
      simp only [bind_assoc]
      exact composed_part_bind fun body hbody =>
        hkept fun e he => composed_staticBlock hK he hm hkind hbody
    · exact hrest hstatics

omit hK in
theorem of_constructorNode? {source : String} {members : List Node} {m : Node}
    (h : constructorNode? source members = some m) :
    m ∈ members ∧ m.kind.isFunction = true := by
  refine ⟨List.mem_of_find?_eq_some h, ?_⟩
  have hm := List.find?_some h
  simp only [Bool.and_eq_true, beq_iff_eq] at hm
  rw [hm.1.1]
  rfl

/-- A class is two objects, its members and its static parts. -/
theorem composed_evalClass (hn : K.expression n) : (evalClass n e).Composed K t := by
  unfold evalClass
  refine .source fun source _ => ?_
  extract_lets name
  refine .bind (composed_evalHeritage e hK hn) fun heritage =>
    composed_childScope_bind fun scope hscope => ?_
  extract_lets rest
  have hrest (u) : (rest u).Composed K t := by
    refine .bind (composed_prototypeParent heritage) fun parent =>
      .bind (composed_allocData (by nofun)) fun proto => composed_part_bind fun body hbody => ?_
    extract_lets members written closure
    have hmembers : ∀ m ∈ members, K.expression m :=
      fun m hm => hK.namedChild (hK.child? hn hbody) hm
    have hclosure : K.Covers closure :=
      ⟨fun m hm => hK.function (hmembers m (of_constructorNode? hm).1) (of_constructorNode? hm).2,
        fun p hp => by cases hp⟩
    refine .bind .realm fun realm =>
      .bind (composed_alloc fun c hc => by cases hc; exact hclosure) fun constructor =>
      .bind (composed_define ..) fun _ => .bind (composed_define ..) fun _ => ?_
    refine composed_evalMembers scope hK hmembers (fun s hs => by cases hs) fun statics hstatics => ?_
    extract_lets rest
    have hrest (u) : (rest u).Composed K t :=
      .within _ fun inside hinside => .bind (composed_each_of_mem fun s hs =>
        hstatics s hs inside hinside) fun _ => composed_pure _
    exact composed_ite (.bind (composed_declare hscope ..) fun _ => hrest ()) (hrest ())
  exact composed_ite (.bind (composed_declare hscope ..) fun _ => hrest ()) (hrest ())

end

end Action
end Stepper.Machine
