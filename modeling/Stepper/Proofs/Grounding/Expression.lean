import Stepper.Machine.Expression
import Stepper.Proofs.Grounding.Target

/-!
Expressions are grounded.
-/
namespace Stepper.Machine

open Syntax

namespace Action

variable {n : Horizon}

@[grind ←] theorem grounded_evalTemplate (node : Node) (e : ScopeRef) :
    (evalTemplate node e).Grounded n := by
  unfold evalTemplate
  grind

/-- Elements are evaluated in order, and what is spread adds members of what was evaluated. -/
@[grind ←] theorem grounded_evalElements (e : ScopeRef) (nodes : List Node) (filled : Bool)
    {acc : List Value} (hacc : Known n acc) : (evalElements e nodes filled acc).Grounded n := by
  induction nodes generalizing n filled acc with
  | nil =>
    unfold evalElements
    grind
  | cons c cs ih =>
    unfold evalElements
    grind

/-- An array literal refers to its elements. -/
@[grind ←] theorem grounded_evalArray (node : Node) (e : ScopeRef) :
    (evalArray node e).Grounded n := by
  unfold evalArray
  grind

/-- The object and the key of a member are evaluated before it is read. -/
@[grind ←] theorem grounded_memberTarget (node : Node) (e : ScopeRef) :
    (memberTarget node e).Grounded n := by
  unfold memberTarget
  grind

/-- What a member reads is known, also if the object is the parent of a class. -/
@[grind ←] theorem grounded_memberValue (node : Node) (e : ScopeRef) {v : Value} (hv : Known n v)
    (k : Text) : (memberValue node e v k).Grounded n := by
  unfold memberValue
  grind

/-- Arguments are evaluated like elements. -/
@[grind ←] theorem grounded_evalArguments (node : Option Node) (e : ScopeRef) :
    (evalArguments node e).Grounded n := by
  unfold evalArguments
  cases node with
  | none => exact grounded_pure known_nil
  | some node =>
    refine .bind (grounded_collect (known_plain _ _) fun m c _ _ => ?_) fun m groups _ hgroups =>
      grounded_pure (known_flatten hgroups)
    grind

/-- A callee comes with the receiver it was read from. -/
@[grind ←] theorem grounded_evalCallee (node : Node) (e : ScopeRef) :
    (evalCallee node e).Grounded n := by
  unfold evalCallee
  grind

/-- A call is of an evaluated function with evaluated arguments. -/
@[grind ←] theorem grounded_evalCall (node : Node) (e : ScopeRef) :
    (evalCall node e).Grounded n := by
  unfold evalCall
  grind

@[grind ←] theorem grounded_evalLink (node : Node) (e : ScopeRef) :
    (evalLink node e).Grounded n := by
  unfold evalLink
  grind

/-- A chain that is cut short is undefined. -/
@[grind ←] theorem grounded_evalChain (node : Node) (e : ScopeRef) (isHead : Bool) :
    (evalChain node e isHead).Grounded n := by
  unfold evalChain
  grind

@[grind ←] theorem grounded_evalNew (node : Node) (e : ScopeRef) : (evalNew node e).Grounded n := by
  unfold evalNew
  grind

/-- Sums and joined texts are no objects. -/
@[grind ←] theorem grounded_add (h : Heap) (d : Nat) (a b : Value) :
    (ofExcept (h.add d a b)).Grounded n := by
  have hvalue (v : Value) (hv : Known n v) : (ofExcept (pure v)).Grounded n := grounded_pure hv
  unfold Heap.add
  grind

@[grind ←] theorem grounded_unary (h : Heap) (d : Nat) (o : UnaryOperator) (v : Value) :
    (ofExcept (h.unary d o v)).Grounded n := by
  have hvalue (v : Value) (hv : Known n v) : (ofExcept (pure v)).Grounded n := grounded_pure hv
  unfold Heap.unary
  grind

/-- Loose equality converts by code that its operands refer to. -/
@[grind ←] theorem grounded_looseSame {primitive : Value → Action Value}
    {number : Text → Action Float}
    {exhausted : Action Bool}
    (hp : ∀ m v, Later n m → Known m v → (primitive v).Grounded m)
    (hn : ∀ m t, Later n m → (number t).Grounded m) (he : ∀ m, Later n m → exhausted.Grounded m)
    (steps : Nat) {a b : Value} (ha : Known n a) (hb : Known n b) :
    (looseSame primitive number exhausted steps a b).Grounded n := by
  induction steps generalizing n a b with
  | zero => exact he n (.refl n)
  | succ steps ih =>
    unfold looseSame
    grind

/-- Operators give primitive values. -/
@[grind ←] theorem grounded_binary (o : BinaryOperator) {a b : Value} (ha : Known n a)
    (hb : Known n b) : (binary o a b).Grounded n := by
  have hloose (a b) (ha : Known n a) (hb : Known n b) : (binary.loose a b).Grounded n :=
    grounded_looseSame (fun _ _ _ hv => grounded_toPrimitive hv _)
      (fun _ _ _ => grounded_ofExcept_plain _) (fun _ _ => grounded_fault _) _ ha hb
  cases o with
  | isIn =>
    unfold binary
    cases b <;> grind
  | _ =>
    unfold binary
    grind

@[grind ←] theorem grounded_binaryBySymbol (s : String) {a b : Value} (ha : Known n a)
    (hb : Known n b) : (binaryBySymbol s a b).Grounded n := by
  unfold binaryBySymbol
  grind

@[grind ←] theorem grounded_evalBinary (node : Node) (e : ScopeRef) :
    (evalBinary node e).Grounded n := by
  unfold evalBinary
  grind

@[grind ←] theorem grounded_evalDelete (node : Node) (e : ScopeRef) :
    (evalDelete node e).Grounded n := by
  unfold evalDelete
  grind

@[grind ←] theorem grounded_evalUnary (node : Node) (e : ScopeRef) :
    (evalUnary node e).Grounded n := by
  unfold evalUnary
  refine .bind grounded_source fun _ source _ _ => ?_
  extract_lets symbol
  refine .bind (grounded_part _) fun _ argument _ _ => ?_
  grind

/-- What is written back by an update is a number. -/
@[grind ←] theorem grounded_evalUpdate (node : Node) (e : ScopeRef) :
    (evalUpdate node e).Grounded n := by
  unfold evalUpdate
  grind

@[grind ←] theorem grounded_evalAssignment (node : Node) (e : ScopeRef) :
    (evalAssignment node e).Grounded n := by
  unfold evalAssignment
  refine .bind (grounded_part _) fun _ left _ _ => .bind (grounded_part _) fun _ right _ _ => ?_
  grind

/-- An augmented assignment writes the outcome of its operator. -/
@[grind ←] theorem grounded_evalAugmented (node : Node) (e : ScopeRef) :
    (evalAugmented node e).Grounded n := by
  unfold evalAugmented
  refine .bind grounded_source fun _ source _ _ => ?_
  extract_lets symbol
  refine .bind (grounded_part _) fun _ left _ _ => .bind (grounded_reference left e) fun _ r _ _ =>
    .bind (grounded_part _) fun _ right _ _ => ?_
  grind

@[grind ←] theorem grounded_evalSequence (e : ScopeRef) (nodes : List Node) {v : Value}
    (hv : Known n v) : (evalSequence e nodes v).Grounded n := by
  induction nodes generalizing n v with
  | nil => exact grounded_pure hv
  | cons c cs ih =>
    unfold evalSequence
    grind

@[grind ←] theorem grounded_evalIdentifier (node : Node) (e : ScopeRef) :
    (evalIdentifier node e).Grounded n := by
  unfold evalIdentifier
  grind

/-- Every expression is grounded, one lemma for each kind. -/
theorem grounded_evaluate (node : Node) (e : ScopeRef) (isHead : Bool) :
    (evaluate node e isHead).Grounded n := by
  unfold evaluate
  grind

end Action
end Stepper.Machine
