import Stepper.Machine.Expression
import Stepper.Proofs.Composition.Function

/-!
Expressions are composed. One of them looks at what a part came to: a chain takes its being cut
short for undefined, and lets everything else pass.
-/
namespace Stepper.Machine

open Syntax

namespace Action

variable {K : Means} {t : Targets}

section

variable (a b : Value)

/-- Loose equality is made of conversions. -/
@[grind ←] theorem composed_loose : (binary.loose a b).Composed K t := by
  unfold binary.loose
  generalize maxConversions = steps
  induction steps generalizing a b with
  | zero => exact composed_fault _
  | succ steps ih =>
    unfold looseSame
    grind

/-- Every operator is made of conversions and tests. -/
@[grind ←] theorem composed_binary (o : BinaryOperator) : (binary o a b).Composed K t := by
  unfold binary
  cases o <;> grind

@[grind ←] theorem composed_binaryBySymbol (s : String) : (binaryBySymbol s a b).Composed K t := by
  unfold binaryBySymbol
  cases BinaryOperator.ofSymbol? s with
  | none => exact composed_raise ..
  | some o => exact composed_binary a b o

end

/-- A name is looked up. -/
@[grind ←] theorem composed_evalIdentifier (n : Node) (e : ScopeRef) :
    (evalIdentifier n e).Composed K t := by
  unfold evalIdentifier
  grind

/-- A member is read from its object, or from the parent of a class. -/
@[grind ←] theorem composed_memberValue (n : Node) (e : ScopeRef) (v : Value) (k : Text) :
    (memberValue n e v k).Composed K t := by
  refine composed_ite (.bind composed_scopes fun _ => .bind (composed_scope _) fun s => ?_)
    (composed_get k v)
  cases s.home with
  | none => exact composed_fault _
  | some home =>
    refine .bind (composed_object home) fun o => ?_
    cases o.proto with
    | none => exact composed_fault _
    | some p => exact composed_getFrom ..

section

variable {n : Node} (e : ScopeRef) (hK : K.Hereditary) (hn : K.expression n)

include hK

include hn in
@[grind ←] theorem composed_evalTemplate : (evalTemplate n e).Composed K t := by
  refine .source fun source _ => .bind (composed_collect_of_mem fun m hm => ?_) fun _ =>
    composed_pure _
  split
  · exact composed_pure _
  · exact composed_ofExcept _
  · exact composed_part_bind fun x hx =>
      .bind (composed_eval e (hK.firstChild (hK.child hn hm) hx)) fun _ => composed_toText _
  · exact composed_pure _

/-- Elements are evaluated one after the other, and spread ones iterated. -/
theorem composed_evalElements {cs : List Node} (hcs : ∀ c ∈ cs, K.expression c) (filled : Bool)
    (acc : List Value) : (evalElements e cs filled acc).Composed K t := by
  induction cs generalizing filled acc with
  | nil => exact composed_pure acc
  | cons c cs ih =>
    have hc := hcs c List.mem_cons_self
    have hrest (filled acc) := ih (fun d hd => hcs d (List.mem_cons_of_mem c hd)) filled acc
    refine composed_ite (hrest ..) (composed_ite (hrest ..) (composed_ite ?_ ?_))
    · exact composed_part_bind fun m hm => .bind (composed_eval e (hK.firstChild hc hm)) fun _ =>
        .bind (composed_iterate _) fun _ => hrest ..
    · exact .bind (composed_eval e hc) fun _ => hrest ..

include hn in
@[grind ←] theorem composed_evalArray : (evalArray n e).Composed K t :=
  .bind (composed_evalElements e hK (fun _ hc => hK.child hn hc) ..) fun _ => composed_newArray _

include hn in
/-- The object is evaluated, then the key. -/
@[grind ←] theorem composed_memberTarget : (memberTarget n e).Composed K t := by
  refine .bind (composed_memberObject e hK hn) fun v => ?_
  have hkey : (do return (v, ← memberKey n e) : Action (Value × Text)).Composed K t :=
    .bind (composed_memberKey e hK hn) fun _ => composed_pure _
  exact composed_ite (.bind (composed_interrupt (.inr trivial)) fun _ => hkey) hkey

@[grind ←] theorem composed_evalArguments {args : Option Node}
    (hargs : ∀ n, args = some n → K.expression n) : (evalArguments args e).Composed K t := by
  cases args with
  | none => exact composed_pure _
  | some n =>
    refine .bind (composed_collect_of_mem fun c hc => ?_) fun _ => composed_pure _
    have hc := hK.namedChild (hargs n rfl) hc
    refine composed_ite (composed_part_bind fun m hm => ?_) ?_
    · exact .bind (composed_eval e (hK.firstChild hc hm)) fun _ => composed_iterate _
    · exact .bind (composed_eval e hc) fun _ => composed_pure _

include hn in
/-- A callee is evaluated along with its receiver. -/
@[grind ←] theorem composed_evalCallee : (evalCallee n e).Composed K t := by
  unfold evalCallee
  split
  · exact .bind (composed_memberTarget e hK hn) fun _ =>
      .bind (composed_memberValue ..) fun _ => composed_pure _
  · exact .bind (composed_memberTarget e hK hn) fun _ =>
      .bind (composed_memberValue ..) fun _ => composed_pure _
  · exact .bind (composed_evalHead e hn) fun _ => composed_pure _

include hn in
/-- A call is the callee, the arguments and one call. -/
@[grind ←] theorem composed_evalCall : (evalCall n e).Composed K t := by
  refine composed_part_bind fun callee hcallee => ?_
  extract_lets args
  have hargs : (evalArguments args e).Composed K t :=
    composed_evalArguments e hK fun _ h => hK.child? hn h
  refine composed_ite ?_
    (.bind (composed_evalCallee e hK (hK.child? hn hcallee)) fun (f, this) => ?_)
  · exact .bind hargs fun _ => .bind (composed_superConstruct ..) fun _ => composed_pure _
  · dsimp -zeta only
    extract_lets apply rest
    have happly (u) : (apply u).Composed K t := by grind
    have hrest (u) : (rest u).Composed K t :=
      composed_ite (.bind (composed_raise ..) happly) (happly ())
    exact composed_ite (.bind (composed_interrupt (.inr trivial)) hrest) (hrest ())

include hn in
@[grind ←] theorem composed_evalLink : (evalLink n e).Composed K t :=
  composed_ite (composed_evalCall e hK hn)
    (.bind (composed_memberTarget e hK hn) fun _ => composed_memberValue ..)

include hn in
/-- The head of a chain catches what cuts it short. -/
@[grind ←] theorem composed_evalChain (isHead : Bool) : (evalChain n e isHead).Composed K t := by
  refine composed_ite (composed_evalLink e hK hn)
    (.handle (composed_evalLink (t := t) e hK hn) (fun r _ hr => ?_) rfl)
  rcases r with i | v
  · cases i with
    | cutShort => exact composed_pure _
    | _ => exact composed_interrupt (hr _ rfl)
  · exact composed_pure v

include hn in
@[grind ←] theorem composed_evalNew : (evalNew n e).Composed K t := by
  refine composed_part_bind fun callee hcallee =>
    .bind (composed_eval e (hK.child? hn hcallee)) fun f =>
    .bind (composed_evalArguments e hK fun _ h => hK.child? hn h) fun args =>
    .bind (composed_isCallable f) fun _ => ?_
  have hconstruct : (construct f args f).Composed K t := composed_construct ..
  exact composed_ite (.bind (composed_textOf callee) fun _ => .bind (composed_typeError _) fun _ =>
    hconstruct) hconstruct

include hn in
@[grind ←] theorem composed_evalBinary : (evalBinary n e).Composed K t := by
  refine .source fun source _ => composed_part_bind fun left hleft =>
    .bind (composed_eval e (hK.child? hn hleft)) fun v => composed_part_bind fun right hright => ?_
  have hright := composed_eval (t := t) e (hK.child? hn hright)
  rcases shortCircuit? (n.operatorText source) v with _ | _ | _
  · exact .bind hright fun _ => composed_binaryBySymbol ..
  · exact hright
  · exact composed_pure v

include hn in
@[grind ←] theorem composed_evalDelete : (evalDelete n e).Composed K t := by
  have hmember : (do
      let p ← memberTarget n e
      delete p.1 p.2
      return Value.bool true).Composed K t :=
    .bind (composed_memberTarget e hK hn) fun _ => .bind (composed_delete ..) fun _ =>
      composed_pure _
  unfold evalDelete
  split
  · exact hmember
  · exact hmember
  · exact composed_pure _

include hn in
@[grind ←] theorem composed_evalUnary : (evalUnary n e).Composed K t := by
  refine .source fun source _ => composed_part_bind fun argument hargument => ?_
  have hargument := hK.child? hn hargument
  split
  · grind
  · grind

include hn in
/-- An update reads and writes one reference, which its scope must allow. -/
@[grind ←] theorem composed_evalUpdate (ha : K.assigns e) : (evalUpdate n e).Composed K t :=
  .source fun _ _ => composed_part_bind fun _ hargument =>
    .bind (composed_reference e hK (hK.child? hn hargument)) fun _ =>
    .bind (composed_readReference ..) fun _ => .bind (composed_toNumber _) fun _ =>
    .bind (composed_writeReference e _ _ ha) fun _ => composed_pure _

include hn in
/-- An assignment writes one reference or binds a pattern. -/
@[grind ←] theorem composed_evalAssignment (ha : K.assigns e) :
    (evalAssignment n e).Composed K t := by
  refine composed_part_bind fun left hleft => composed_part_bind fun right hright => ?_
  have hleft := hK.child? hn hleft
  have hright := hK.child? hn hright
  have hpattern : (do
      let v ← eval right e
      bindTarget left v e .assign
      return v).Composed K t :=
    .bind (composed_eval e hright) fun _ => .bind (composed_bindTarget e hleft _ nofun) fun _ =>
      composed_pure _
  split
  · exact hpattern
  · exact hpattern
  · grind

include hn in
@[grind ←] theorem composed_evalAugmented (ha : K.assigns e) :
    (evalAugmented n e).Composed K t := by
  refine .source fun source _ => composed_part_bind fun left hleft =>
    .bind (composed_reference e hK (hK.child? hn hleft)) fun r =>
    composed_part_bind fun right hright => .bind (composed_readReference e r) fun before => ?_
  have hright := composed_eval (t := t) e (hK.child? hn hright)
  have hwrite (v : Value) : (do writeReference r e v; return v).Composed K t :=
    .bind (composed_writeReference e _ _ ha) fun _ => composed_pure v
  rcases shortCircuit? _ before with _ | _ | _
  · exact .bind hright fun _ => .bind (composed_binaryBySymbol ..) hwrite
  · exact .bind hright hwrite
  · exact composed_pure before

omit hK

/-- A sequence is its parts, one after the other. -/
theorem composed_evalSequence {cs : List Node} (hcs : ∀ c ∈ cs, K.expression c) (v : Value) :
    (evalSequence e cs v).Composed K t := by
  induction cs generalizing v with
  | nil => exact composed_pure v
  | cons c cs ih =>
    exact .bind (composed_eval e (hcs c List.mem_cons_self)) fun v =>
      ih (fun d hd => hcs d (List.mem_cons_of_mem c hd)) v

include hK hn

/-- Every expression is composed if its parts are expressions of the law. -/
theorem composed_evaluate (ha : K.assigns e) (isHead : Bool) :
    (evaluate n e isHead).Composed K t := by
  have hfunction (hkind : n.kind.isFunction = true) : (makeFunction n e [] none false).Composed K t :=
    composed_makeFunction e (hK.function hn hkind) [] none false
  have hinside : (do eval (← firstChild n) e).Composed K t :=
    composed_part_bind fun _ h => composed_eval e (hK.firstChild hn h)
  have hchoice : (do
      let test ← eval (← part (n.child? .condition)) e
      eval (← part (n.child? (if test.truth then .consequence else .alternative))) e).Composed K t :=
    composed_part_bind fun _ htest => .bind (composed_eval e (hK.child? hn htest)) fun _ =>
      composed_part_bind fun _ hbranch => composed_eval e (hK.child? hn hbranch)
  have hsequence : (evalSequence e n.namedChildren .undefined).Composed K t :=
    composed_evalSequence e (fun _ hc => hK.namedChild hn hc) _
  have hclass := composed_evalClass (t := t) e hK hn
  unfold evaluate
  split <;> grind [Kind.isFunction]

end

end Action
end Stepper.Machine
