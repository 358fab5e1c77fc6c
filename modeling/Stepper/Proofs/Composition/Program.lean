import Stepper.Proofs.Composition.Builtin

/-!
Programs are composed: what is put in place before the first statement, and the statements.
-/
namespace Stepper.Execution

open Syntax Machine Action

variable {α : Type} {K : Means} {t : Targets}

theorem composed_globalScope_bind {f : ScopeRef → Action α}
    (hf : ∀ e, K.opens e → (f e).Composed K t) : (globalScope >>= f).Composed K t := by
  unfold globalScope
  rw [Action.bind_assoc]
  refine .within _ fun e he => composed_bind_bind
    (composed_each (fun p => composed_declare he ..) _) fun _ => composed_bind_bind
    (composed_each (fun p => .bind (composed_newNative ..) fun _ => composed_declare he ..) _)
    fun _ => composed_bind_bind composed_newObject fun console => composed_bind_bind
    (composed_each (fun p => .bind (composed_newNative ..) fun _ => composed_define ..) _)
    fun _ => composed_bind_bind (composed_declare he ..) fun _ => hf e he

theorem composed_program {root : Node} (hK : K.Hereditary)
    (hroot : ∀ s ∈ root.namedChildren, K.confined t [] s) : (program root).Composed K t :=
  composed_globalScope_bind fun _ he =>
    .bind (composed_hoistFunction hK he fun s hs => Means.expression_of_confined (hroot s hs))
      fun _ => composed_execAll he hroot

end Stepper.Execution
