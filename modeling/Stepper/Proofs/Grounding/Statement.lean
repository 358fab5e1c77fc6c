import Stepper.Machine.Statement
import Stepper.Proofs.Grounding.Expression

/-!
Statements are grounded.
-/
namespace Stepper.Machine

open Syntax

namespace Action

variable {n : Horizon} (node : Node) (e : ScopeRef) (labels : List String)

/-- Statements are executed one after the other. -/
@[grind ←] theorem grounded_execAll (nodes : List Node) : (execAll nodes e).Grounded n := by
  unfold execAll
  grind

@[grind ←] theorem grounded_execBlock : (execBlock node e).Grounded n := by
  unfold execBlock
  grind

/-- Declared names are bound to what is evaluated. -/
@[grind ←] theorem grounded_execDeclaration : (execDeclaration node e).Grounded n := by
  unfold execDeclaration
  grind

@[grind ←] theorem grounded_execIf : (execIf node e).Grounded n := by
  unfold execIf
  grind

/-- A body that is left or continued by its label goes on with the loop. -/
@[grind ←] theorem grounded_execBody : (execBody node e labels).Grounded n := by
  unfold execBody
  grind

/-- A loop is grounded round by round. -/
@[grind ←] theorem grounded_execWhile : (execWhile node e labels).Grounded n := by
  unfold execWhile
  grind

@[grind ←] theorem grounded_execDo : (execDo node e labels).Grounded n := by
  unfold execDo
  grind

/-- A round gets copies of what the variables of the one before hold. -/
@[grind ←] theorem grounded_roundScope (from_ parent : ScopeRef) (names : List String) :
    (roundScope from_ parent names).Grounded n := by
  unfold roundScope
  split
  · exact grounded_pure (known_plain _ _)
  · refine .bind (grounded_scope from_) fun m old _ hold => ?_
    have hcopied : Known m (names.filterMap fun n => (old.bindings.get? n).map fun b => (n, b)) :=
      known_filterMap fun n _ => known_option_map fun b hb =>
        known_pair.mpr ⟨known_plain m n, known_of_get? hold.bindings hb⟩
    exact grounded_allocScope (by grind)

@[grind ←] theorem grounded_execForHead (initializer : Option Node) :
    (execForHead initializer e).Grounded n := by
  unfold execForHead
  grind

/-- Each round has a scope of its own with known values. -/
@[grind ←] theorem grounded_execFor : (execFor node e labels).Grounded n := by
  unfold execFor
  extract_lets condition increment
  refine .bind (grounded_part _) fun _ body _ _ => .bind (grounded_childScope e) fun _ head _ _ =>
    .bind (grounded_execForHead head _) fun _ names _ _ =>
    .bind (grounded_roundScope head e names) fun _ first _ _ =>
    grounded_repeating (known_plain _ _) fun m round _ _ => ?_
  extract_lets rest
  have hrest (k : Horizon) (h : Later m k) (goesOn) : (rest goesOn).Grounded k := by
    unfold rest
    grind
  clear_value rest
  grind

/-- An item is bound before the body runs. -/
@[grind ←] theorem grounded_execItem (body : Node) (word : String) {v : Value} (hv : Known n v) :
    (execItem node body word v e labels).Grounded n := by
  unfold execItem
  grind

/-- Items are gone through in their order. -/
@[grind ←] theorem grounded_execItems (body : Node) (word : String) {items : List Value}
    (hitems : Known n items) : (execItems node body word e labels items).Grounded n := by
  unfold execItems
  grind

/-- Elements are read while the body may change the array. -/
@[grind ←] theorem grounded_execElements (body : Node) (word : String) (r : Ref) :
    (execElements node body word e labels r).Grounded n := by
  unfold execElements
  grind

@[grind ←] theorem grounded_execForIn : (execForIn node e labels).Grounded n := by
  unfold execForIn
  refine .bind grounded_source fun _ source _ _ => .bind (grounded_part _) fun _ body _ _ => ?_
  extract_lets word
  refine .bind (grounded_part _) fun _ right _ _ =>
    .bind (grounded_eval right e) fun _ collection _ _ => ?_
  grind

/-- What is returned was evaluated. -/
@[grind ←] theorem grounded_execReturn : (execReturn node e).Grounded n := by
  unfold execReturn
  grind

@[grind ←] theorem grounded_labelOf : (labelOf node).Grounded n := by
  unfold labelOf
  grind

/-- A caught exception is a known value or a new error. -/
@[grind →] theorem grounded_caught? {i : Interrupt} (hi : Known n i) {x : Action Value}
    (hx : caught? i = some x) : x.Grounded n := by
  unfold caught? at hx
  grind

/-- A handler runs with what was caught. -/
@[grind ←] theorem grounded_runHandler (handler : Node) {v : Action Value}
    (hv : ∀ m, Later n m → v.Grounded m) : (runHandler handler v e).Grounded n := by
  unfold runHandler
  grind

@[grind ←] theorem grounded_execGuarded : (execGuarded node e).Grounded n := by
  unfold execGuarded
  refine .bind (grounded_part _) fun _ body _ _ => ?_
  cases node.child? .handler with
  | none => exact grounded_exec body e
  | some handler =>
    refine .bind (grounded_attempt (grounded_exec body e)) fun m x _ hx => ?_
    cases x with
    | ok u => exact grounded_pure hx
    | error i =>
      dsimp only
      split
      · next v hv => exact grounded_runHandler e handler fun _ h => (grounded_caught? hx hv).mono h
      · exact grounded_interrupt hx

/-- A finalizer runs whatever came of the block, which is known as data. -/
@[grind ←] theorem grounded_execTry : (execTry node e).Grounded n := by
  unfold execTry
  grind

/-- Cases are evaluated until one matches. -/
@[grind ←] theorem grounded_matchingCase (discriminant : Value) (cases : List Node) (i : Nat) :
    (matchingCase discriminant e cases i).Grounded n := by
  induction cases generalizing n i with
  | nil => exact grounded_pure known_none
  | cons c cs ih =>
    unfold matchingCase
    grind

/-- A switch runs its statements from the matching case on. -/
@[grind ←] theorem grounded_execSwitch : (execSwitch node e labels).Grounded n := by
  unfold execSwitch
  refine .bind (grounded_part _) fun _ value _ _ => .bind (grounded_eval value e) fun _ v _ _ =>
    .bind (grounded_part _) fun _ body _ _ => ?_
  extract_lets cases
  refine .bind (grounded_childScope e) fun _ inside _ _ =>
    .bind (grounded_each (known_plain _ _) fun _ c _ _ => grounded_hoistBlock _ inside)
    fun m _ _ _ => ?_
  extract_lets rest
  have hrest (k : Horizon) (h : Later m k) (start) : (rest start).Grounded k := by
    unfold rest
    grind
  clear_value rest
  grind

@[grind ←] theorem grounded_execLabeledStatement :
    (execLabeledStatement node e labels).Grounded n := by
  unfold execLabeledStatement
  grind

/-- Every statement is grounded, one lemma for each kind. -/
theorem grounded_execute : (execute node e labels).Grounded n := by
  unfold execute
  grind

end Action
end Stepper.Machine
