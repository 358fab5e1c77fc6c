import Stepper.Machine.Class
import Stepper.Proofs.Grounding.Property

/-!
Functions, targets, object literals and classes are grounded.
-/
namespace Stepper.Machine

open Syntax

namespace Action

variable {n : Horizon}

@[grind ←] theorem grounded_part (node : Option Node) : (part node).Grounded n := by
  unfold part
  grind

@[grind ←] theorem grounded_firstChild (node : Node) : (firstChild node).Grounded n := by
  unfold firstChild
  grind

@[grind ←] theorem grounded_evalNamed (node : Node) (e : ScopeRef) (name : Text) :
    (evalNamed node e name).Grounded n := by
  unfold evalNamed
  refine .bind (grounded_eval node e) fun m v hm hv => ?_
  split
  · cases v with
    | object r =>
      refine .bind (grounded_update (fun m o hm ho => ?_) (fun o => ?_) r) fun m _ hm _ =>
        grounded_pure (hv.mono hm)
      · grind
      · grind
    | _ => grind
  · exact grounded_pure hv

/-- A function is made with its home object, and then its prototype with a property that leads back.
-/
@[grind ←] theorem grounded_makeFunction (node : Node) (e : ScopeRef) (name : Text)
    {home : Option Ref} (hhome : Known n home) (isMethod : Bool) :
    (makeFunction node e name home isMethod).Grounded n := by
  unfold makeFunction
  extract_lets isArrow rest
  have hrest (k : Horizon) (h : Later n k) (written) : (rest written).Grounded k := by
    unfold rest
    extract_lets name bindsItself rest
    have hrest (m : Horizon) (h : Later n m) (scope) : (rest scope).Grounded m := by
      have hhome := hhome.mono h
      refine .bind grounded_realm fun k realm hk hrealm => ?_
      have hproto := (known_realm.mp hrealm).2.1
      have hclosure : Known k ({ name, node := some node, scope, isArrow, isMethod, home } : Closure) :=
        known_closure.mpr (hhome.mono hk)
      refine .bind (grounded_alloc (known_mk.mpr ⟨known_some.mpr hproto, known_nil, hclosure⟩))
        fun m f hm hf => ?_
      refine .optional (fun _ => grounded_declare _ _ _ (known_some.mpr hf)) fun k hk => ?_
      refine grounded_ite (fun _ => ?_) fun _ => grounded_pure (hf.mono hk)
      refine .bind grounded_newObject fun m proto hm hproto => ?_
      have hf := hf.mono (hk.trans hm)
      exact .bind (grounded_define _ _ hf) fun k _ hk _ =>
        .bind (grounded_define _ _ (hproto.mono hk)) fun m _ hm _ =>
          grounded_pure (hf.mono (hk.trans hm))
    exact grounded_ite
      (fun _ => .bind (grounded_childScope e) fun m scope hm _ => hrest m (h.trans hm) scope)
      fun _ => hrest k h e
  cases node.child? .name with
  | none => exact hrest n (.refl n) none
  | some m =>
    exact .bind (.bind (grounded_textOf m) fun _ _ _ _ => grounded_pure (known_plain _ _))
      fun k written hk _ => hrest k hk written

/-- Functions are made before the statements of their block run. -/
@[grind ←] theorem grounded_hoistBlock (statements : List Node) (e : ScopeRef) :
    (hoistBlock statements e).Grounded n := by
  refine .bind grounded_source fun m source _ _ =>
    grounded_each (known_plain m statements) fun m node _ _ => ?_
  have hfunction : Action.Grounded m (do
      let name ← textOf (← part (node.child? .name))
      declare e name .function (some (← makeFunction node e [] none false))) :=
    .bind (grounded_part _) fun _ name _ _ => .bind (grounded_textOf name) fun _ _ _ _ =>
      .bind (grounded_makeFunction node e [] known_none false) fun _ _ _ hf =>
        grounded_declare _ _ _ (known_some.mpr hf)
  generalize node.kind = kind
  cases kind with
  | functionDeclaration => exact hfunction
  | generatorFunctionDeclaration => exact hfunction
  | lexicalDeclaration =>
    exact grounded_each (known_plain m (node.declaredNames source)) fun _ _ _ _ =>
      grounded_declare _ _ _ known_none
  | classDeclaration =>
    exact .bind (grounded_part _) fun _ name _ _ => .bind (grounded_textOf name) fun _ _ _ _ =>
      grounded_declare _ _ _ known_none
  | _ => exact grounded_pure (known_plain m ())

/-- Variables are declared undefined and functions are made before a body runs. -/
@[grind ←] theorem grounded_hoistFunction (body : Node) (e : ScopeRef) :
    (hoistFunction body e).Grounded n := by
  unfold hoistFunction
  grind

/-- Arguments are bound to parameters in their order, and the rest goes to a new array. -/
@[grind ←] theorem grounded_bindParameters (params : List Node) {args : List Value}
    (hargs : Known n args) (e : ScopeRef) : (bindParameters params args e).Grounded n := by
  induction params generalizing n args with
  | nil => exact grounded_pure (known_plain _ _)
  | cons p ps ih =>
    unfold bindParameters
    grind

/-- The scope of a call refers to the function, its home, the receiver and the new target. -/
@[grind ←] theorem grounded_callScope {f : Ref} (hf : Known n f) {c : Closure} (hc : Known n c)
    {this : Option Value} (hthis : Known n this) {newTarget : Option Ref}
    (hnew : Known n newTarget) : (callScope f c this newTarget).Grounded n := by
  unfold callScope
  grind

@[grind →] theorem known_closureOf? {o : Object} (ho : Known n o) : Known n (closureOf? o) := by
  unfold closureOf?
  grind

/-- Fields are evaluated with the new object as receiver. -/
@[grind ←] theorem grounded_initializeFields {f this : Ref} (hf : Known n f)
    (hthis : Known n this) : (initializeFields f this).Grounded n := by
  refine .bind (grounded_object f) fun m o hm ho => ?_
  have hclosure := known_closureOf? ho
  cases hc : closureOf? o with
  | none => exact grounded_pure (known_plain _ _)
  | some c =>
    have hhome := known_closure.mp (known_option.mp hclosure c hc)
    have hf := hf.mono hm
    have hthis := hthis.mono hm
    refine grounded_each (known_plain _ _) fun k field hk _ => ?_
    refine .bind (grounded_allocScope (known_scope_mk.mpr
      ⟨known_nil, hthis.mono hk, hf.mono hk, hhome.mono hk, known_none⟩)) fun l e hl _ => ?_
    have hdefine (v : Value) (m : Horizon) (hv : Known m v) : (define this field.1 v).Grounded m :=
      grounded_define _ _ hv
    cases field.2 with
    | none => exact hdefine _ _ known_undefined
    | some node => exact .bind (grounded_evalNamed node e _) fun m v _ hv => hdefine v m hv

/-- The parent is constructed for the new target, and what it returns becomes the receiver. -/
@[grind ←] theorem grounded_superConstruct {args : List Value} (hargs : Known n args)
    (e : ScopeRef) : (superConstruct args e).Grounded n := by
  refine .bind grounded_scopes fun m scopes hm _ => .bind (grounded_scope _) fun k s hk hs => ?_
  have hargs := hargs.mono (hm.trans hk)
  extract_lets rest
  have hrest (m : Horizon) (h : Later k m) (extended) (hextended : Known m extended) :
      (rest extended).Grounded m := by
    have hargs := hargs.mono h
    have hs := hs.mono h
    cases extended with
    | none => exact grounded_typeError _
    | some p =>
      obtain ⟨hf, hparent⟩ := known_prod.mp (known_some.mp hextended)
      refine .bind (grounded_isCallable _) fun k isFunction hk _ => ?_
      refine grounded_ite (fun _ => grounded_typeError _) fun _ => ?_
      refine grounded_ite (fun _ => grounded_raise _ _) fun _ => ?_
      have hf := hf.mono hk
      refine .bind (grounded_construct (hparent.mono hk) (hargs.mono hk)
        (known_getD (hs.mono hk).newTarget hf)) fun l this hl hthis => ?_
      refine .bind (grounded_setThis _ hthis) fun m _ hm _ => ?_
      cases this with
      | object r =>
        exact grounded_initializeFields (hf.mono (hl.trans hm)) (hthis.mono hm)
      | _ => exact grounded_fault _
  cases hf : s.function with
  | none => exact hrest k (.refl k) none known_none
  | some f =>
    have hf : Known k f := known_option.mp hs.function f hf
    refine .bind (grounded_object f) fun m o hm ho => hrest m hm _ ?_
    refine known_ite (fun _ => known_option_map fun p hp => ?_) fun _ => known_none
    exact known_pair.mpr ⟨hf.mono hm, known_option.mp ho.proto p hp⟩

/-- A body ends with a known value, or with what cut it short. -/
@[grind ←] theorem grounded_finishBody {x : Except Interrupt Value} (hx : Known n x) :
    (finishBody x).Grounded n := by
  unfold finishBody
  grind

/-- Parameters are bound before a body runs. -/
@[grind ←] theorem grounded_runBody {c : Closure} (node : Node) (e : ScopeRef)
    {args : List Value} (hargs : Known n args) : (runBody c node e args).Grounded n := by
  unfold runBody
  extract_lets rest
  have hrest (m : Horizon) (h : Later n m) (u) : (rest u).Grounded m := by
    refine .bind (grounded_bindParameters _ (hargs.mono h) e) fun m _ _ _ =>
      .bind (grounded_part _) fun m body _ _ => ?_
    refine grounded_ite (fun _ => grounded_eval body e) fun _ => ?_
    exact .bind (grounded_hoistFunction body e) fun m _ _ _ =>
      .bind (grounded_each (known_plain m body.namedChildren) fun _ s _ _ => grounded_exec s e)
        fun _ _ _ _ => grounded_pure known_undefined
  refine grounded_ite (fun _ => ?_) fun _ => hrest n (.refl n) ()
  exact .bind (grounded_newArray hargs) fun m v hm hv =>
    .bind (grounded_declare _ _ _ (known_some.mpr hv)) fun k _ hk _ => hrest k (hm.trans hk) ()

@[grind ←] theorem grounded_invoke {c : Closure} (e : ScopeRef)
    {args : List Value} (hargs : Known n args) : (invoke c e args).Grounded n := by
  unfold invoke
  cases c.node with
  | none =>
    exact .optional (fun _ => grounded_superConstruct hargs e) fun _ _ =>
      grounded_pure known_undefined
  | some node =>
    refine grounded_ite (fun _ => grounded_typeError _) fun _ => ?_
    refine .bind grounded_depth fun m depth hm _ =>
      grounded_ite (fun _ => grounded_raise _ _) fun _ => ?_
    exact .bind (grounded_attempt (grounded_deeper (grounded_runBody node e (hargs.mono hm))))
      fun _ _ _ hx => grounded_finishBody hx

/-- A closure is called in a new scope that refers to what is known. -/
@[grind ←] theorem grounded_callClosure {f : Ref} (hf : Known n f) {c : Closure} (hc : Known n c)
    {this : Value} (hthis : Known n this) {args : List Value} (hargs : Known n args) :
    (callClosure f c this args).Grounded n := by
  refine grounded_ite (fun _ => grounded_typeError _) fun _ => ?_
  exact .bind (grounded_callScope hf hc (known_some.mpr hthis) known_none) fun _ e hm _ =>
    grounded_invoke e (hargs.mono hm)

@[grind ←] theorem grounded_notConstructor (v : Value) : (notConstructor v).Grounded n :=
  .bind (grounded_describe v) fun _ _ _ _ => grounded_typeError _

/-- A new object is made for a base class, and by the parent for a derived one. -/
@[grind ←] theorem grounded_constructClosure {f : Ref} (hf : Known n f) {c : Closure}
    (hc : Known n c) {args : List Value} (hargs : Known n args) {newTarget : Value}
    (hnew : Known n newTarget) : (constructClosure f c args newTarget).Grounded n := by
  refine grounded_ite (fun _ => grounded_notConstructor _) fun _ => ?_
  extract_lets rest
  have hrest (k : Horizon) (h : Later n k) (this) (hthis : Known k this) : (rest this).Grounded k := by
    refine .bind (grounded_callScope (hf.mono h) (hc.mono h) hthis (hnew.mono h)) fun m e hm _ =>
      .bind (grounded_invoke e (hargs.mono (h.trans hm))) fun m v hm hv => ?_
    cases v with
    | object r => exact grounded_pure hv
    | _ => exact grounded_this e
  refine grounded_ite (fun _ => hrest n (.refl n) none known_none) fun _ => ?_
  refine .bind grounded_realm fun m realm hm hrealm =>
    .bind (grounded_prototypeFor (hnew.mono hm) (known_realm.mp hrealm).1) fun k proto hk hproto => ?_
  refine .bind (grounded_alloc (known_mk.mpr ⟨known_some.mpr hproto, known_nil, known_content_plain⟩))
    fun l r hl hr => .bind (grounded_initializeFields (hf.mono (hm.trans (hk.trans hl))) hr)
      fun o _ ho _ => ?_
  exact hrest o (hm.trans (hk.trans (hl.trans ho))) _ (known_some.mpr (hr.mono ho))

end Action
end Stepper.Machine
