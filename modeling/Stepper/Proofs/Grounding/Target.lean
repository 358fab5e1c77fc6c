import Stepper.Proofs.Grounding.Function

/-!
Targets, object literals and classes are grounded.
-/
namespace Stepper.Machine

open Syntax

def Reference.refs : Reference → List Ref
  | .name _ => []
  | .property v _ => Refers.refs v

instance : Refers Reference := ⟨Reference.refs⟩

namespace Action

def Heritage.refs : Heritage → List Ref
  | .parent r => [r]
  | .none | .null => []

instance : Refers Heritage := ⟨Heritage.refs⟩

instance : Refers StaticPart := .plain
instance : Refers.Plain StaticPart := ⟨fun _ => rfl⟩

variable {n : Horizon}

@[grind ←] theorem known_name (name : String) : Known n (Reference.name name) := known_of_refs rfl

/-- A reference to a property is known when its object is. -/
@[grind =] theorem known_property {v : Value} {k : Text} :
    Known n (Reference.property v k) ↔ Known n v := .rfl

/-- A class refers to the parent it extends. -/
@[grind =] theorem known_parent {r : Ref} : Known n (Heritage.parent r) ↔ Known n r := .rfl

@[grind ←] theorem known_heritage_none : Known n Heritage.none := known_of_refs rfl

@[grind ←] theorem known_heritage_null : Known n Heritage.null := known_of_refs rfl

@[grind ←] theorem grounded_literalText (node : Node) : (literalText node).Grounded n := by
  unfold literalText
  grind

@[grind ←] theorem grounded_numberText (node : Node) : (numberText node).Grounded n := by
  unfold numberText
  grind

/-- A computed key is evaluated and made a text. -/
@[grind ←] theorem grounded_propertyKey (node : Node) (e : ScopeRef) :
    (propertyKey node e).Grounded n := by
  unfold propertyKey
  grind

/-- The object of a member is what an evaluation gives. -/
@[grind ←] theorem grounded_memberObject (node : Node) (e : ScopeRef) :
    (memberObject node e).Grounded n := by
  unfold memberObject
  grind

@[grind ←] theorem grounded_memberKey (node : Node) (e : ScopeRef) :
    (memberKey node e).Grounded n := by
  unfold memberKey
  grind

/-- A reference that is evaluated refers to what evaluations gave. -/
@[grind ←] theorem grounded_reference (node : Node) (e : ScopeRef) :
    (reference node e).Grounded n := by
  unfold reference
  grind

/-- What a known reference reads is known. -/
@[grind ←] theorem grounded_readReference {r : Reference} (hr : Known n r) (e : ScopeRef) :
    (readReference r e).Grounded n := by
  unfold readReference
  grind

/-- A known value is written through a known reference. -/
@[grind ←] theorem grounded_writeReference {r : Reference} (hr : Known n r) (e : ScopeRef)
    {v : Value} (hv : Known n v) : (writeReference r e v).Grounded n := by
  unfold writeReference
  grind

section

variable {v : Value} (hv : Known n v) (e : ScopeRef) (mode : BindMode)

@[grind ←] theorem grounded_nameHint (node : Node) : (nameHint node).Grounded n := by
  unfold nameHint
  grind

/-- Items are bound to patterns in their order, and the rest goes to a new array. -/
@[grind ←] theorem grounded_bindItems {items : List Value} (hitems : Known n items)
    (nodes : List Node) (i : Nat) : (bindItems items e mode nodes i).Grounded n := by
  induction nodes generalizing n i with
  | nil => exact grounded_pure (known_plain _ _)
  | cons c cs ih =>
    unfold bindItems
    grind

include hv

@[grind ←] theorem grounded_bindName (name : String) : (bindName name v e mode).Grounded n := by
  unfold bindName
  grind

omit hv in
/-- The members of a known value are bound to the patterns of an array. -/
@[grind ←] theorem grounded_bindArray (node : Node) : (bindArray node v e mode).Grounded n := by
  unfold bindArray
  grind

/-- Properties are read from the value and bound to the patterns of an object. -/
@[grind ←] theorem grounded_bindFields (nodes : List Node) (used : List Text) :
    (bindFields v e mode nodes used).Grounded n := by
  induction nodes generalizing n used with
  | nil => exact grounded_pure (known_plain _ _)
  | cons c cs ih =>
    unfold bindFields
    grind

@[grind ←] theorem grounded_bindObject (node : Node) : (bindObject node v e mode).Grounded n := by
  unfold bindObject
  grind

omit hv in
@[grind ←] theorem grounded_invalidTarget (node : Node) : (invalidTarget node).Grounded n := by
  unfold invalidTarget
  grind

/-- Every pattern binds parts of a known value or of a default that is evaluated. -/
@[grind ←] theorem grounded_bindPattern (node : Node) : (bindPattern node v e mode).Grounded n := by
  unfold bindPattern
  grind

end

/-- One function of an accessor is set, and the other one stays. -/
@[grind ←] theorem grounded_defineHalf (r : Ref) (k : Text) (isGetter : Bool) {f : Ref}
    (hf : Known n f) : (defineHalf r k isGetter f).Grounded n := by
  unfold defineHalf
  grind

@[grind ←] theorem grounded_defineMethod (r : Ref) (k : Text) {f : Value} (hf : Known n f)
    (node : Node) : (defineMethod r k f node).Grounded n := by
  unfold defineMethod
  grind

/-- A member of an object literal is defined in an object that is known. -/
@[grind ←] theorem grounded_evalMember {r : Ref} (hr : Known n r) (e : ScopeRef) (node : Node) :
    (evalMember r e node).Grounded n := by
  unfold evalMember
  grind

/-- An object literal refers to what its members evaluate to. -/
@[grind ←] theorem grounded_evalObject (node : Node) (e : ScopeRef) :
    (evalObject node e).Grounded n := by
  unfold evalObject
  grind

/-- The parent of a class is what its expression gives. -/
@[grind ←] theorem grounded_evalHeritage (node : Node) (e : ScopeRef) :
    (evalHeritage node e).Grounded n := by
  unfold evalHeritage
  split
  · exact grounded_pure known_heritage_none
  · refine .bind (grounded_firstChild _) fun m c hm _ =>
      .bind (grounded_eval c e) fun m v hm hv => ?_
    cases v with
    | null => exact grounded_pure known_heritage_null
    | _ => grind

@[grind ←] theorem grounded_prototypeParent {h : Heritage} (hh : Known n h) :
    (prototypeParent h).Grounded n := by
  unfold prototypeParent
  grind

/-- Methods are defined in the constructor and its prototype, and static parts are kept for later.
-/
@[grind ←] theorem grounded_evalMembers {constructor proto : Ref} (hc : Known n constructor)
    (hp : Known n proto) (written : Option Node) (e : ScopeRef) (ms : List Node)
    (statics : List StaticPart) :
    (evalMembers constructor proto written e ms statics).Grounded n := by
  induction ms generalizing n statics with
  | nil =>
    unfold evalMembers
    grind
  | cons m ms ih =>
    unfold evalMembers
    cases m.kind with
    | fieldDefinition =>
      refine .bind (grounded_part _) fun i c hi _ =>
        .bind (grounded_propertyKey c e) fun i k hi _ => ?_
      dsimp only
      split
      · grind
      · refine .bind (grounded_update (fun j o hj ho => ?_) (fun o => ?_) constructor) ?_
        · grind
        · grind
        · grind
    | _ => grind

/-- A static part runs with the constructor as its receiver. -/
@[grind ←] theorem grounded_runStatic (constructor : Ref) (e : ScopeRef) (s : StaticPart) :
    (runStatic constructor e s).Grounded n := by
  unfold runStatic
  grind

/-- A class makes its prototype before its constructor, and each refers to the other by a property.
-/
@[grind ←] theorem grounded_evalClass (node : Node) (e : ScopeRef) :
    (evalClass node e).Grounded n := by
  unfold evalClass
  refine .bind grounded_source fun i source hi _ => ?_
  extract_lets name
  refine .bind (grounded_evalHeritage node e) fun j heritage hj hh =>
    .bind (grounded_childScope e) fun m scope hm _ => ?_
  extract_lets rest
  have hrest (k : Horizon) (h : Later m k) (u) : (rest u).Grounded k := by
    refine .bind (grounded_prototypeParent (by grind)) fun _ parent _ _ =>
      .bind (grounded_alloc (by grind)) fun _ proto _ _ =>
        .bind (grounded_part _) fun _ body _ _ => ?_
    extract_lets members written closure
    refine .bind grounded_realm fun _ realm _ hr => ?_
    obtain ⟨-, hfunction, -⟩ := known_realm.mp hr
    clear hr
    extract_lets functionProto above
    refine .bind (grounded_alloc (by grind)) fun _ constructor _ _ =>
      .bind (grounded_define _ _ (by grind)) fun _ _ _ _ =>
      .bind (grounded_define _ _ (by grind)) fun _ _ _ _ =>
      .bind (grounded_evalMembers (by grind) (by grind) _ _ _ _) fun last statics _ _ => ?_
    extract_lets rest
    have hrest (k : Horizon) (h : Later last k) (u) : (rest u).Grounded k := by
      unfold rest
      grind
    clear_value rest
    refine grounded_ite (fun _ => ?_) fun _ => hrest _ (.refl _) _
    exact .bind (grounded_declare _ _ _ (by grind)) fun k u hk _ => hrest k hk u
  clear_value rest
  grind

end Action
end Stepper.Machine
