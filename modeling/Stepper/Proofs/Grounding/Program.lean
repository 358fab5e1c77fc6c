import Stepper.Execution.Run
import Stepper.Proofs.Grounding.Call
import Stepper.Proofs.Grounding.Setting

/-!
Programs are grounded: what is in place before they run is, and so are all evaluators.
-/
namespace Stepper.Execution

open Syntax Machine Builtin Action

variable {n : Horizon}

/-- The world that a program begins in is grounded, and nothing is hidden. -/
theorem initialWorld_grounded : initialWorld.Grounded [] :=
  let ⟨_, hs⟩ := grounded_setting
  hs.stands.grounded

/-- The realm refers to prototypes that were made. -/
theorem known_realm_setting : Known (initialWorld.horizon []) setting.realm :=
  let ⟨_, hs⟩ := grounded_setting
  hs.realm.mono hs.stands.later

/-- The global names are bound to objects that were made. -/
theorem known_globals : Known (initialWorld.horizon []) setting.globals :=
  let ⟨_, hs⟩ := grounded_setting
  hs.globals.mono hs.stands.later

theorem known_hooks : Known n hookTable :=
  known_map fun _ _ => known_of_refs rfl

theorem known_console : Known n consoleTable :=
  known_map fun _ _ => known_of_refs rfl

theorem grounded_globalScope (h : Later (initialWorld.horizon []) n) : globalScope.Grounded n := by
  have hglobals : Known n setting.globals := known_globals.mono h
  unfold globalScope
  refine .bind (grounded_allocScope (by grind)) fun m e hm _ => ?_
  refine .bind (grounded_each (hglobals.mono hm) fun m p _ hp => grounded_declare _ _ _ (by grind))
    fun m _ hm _ => ?_
  refine .bind (grounded_each known_hooks fun m p _ hp => ?_) fun m _ hm _ => ?_
  · grind
  refine .bind grounded_newObject fun m console hm hc => ?_
  refine .bind (grounded_each known_console fun m p _ hp => ?_) fun m _ hm _ => ?_
  · grind
  · grind

/-- A program is grounded once the standard library is made. -/
theorem grounded_program (h : Later (initialWorld.horizon []) n) (root : Node) :
    (program root).Grounded n :=
  .bind (grounded_globalScope h) fun _ e _ _ => .bind (grounded_hoistFunction root e)
    fun _ _ _ _ => grounded_execAll e root.namedChildren

theorem exhausted_grounded (k : Horizon) : exhausted.Grounded k := by
  have hdeep {α : Type} [Refers α] (hidden : List Ref) (w : World) (hw : w.Grounded hidden) :
      (Course.broke (.fault .nestingTooDeep) w : Course α).Grounded (w.horizon hidden) :=
    ⟨Nat.le_refl _, hw, known_fault _⟩
  exact ⟨fun _ _ _ l w _ hw => hdeep l w hw, fun _ _ _ l w _ hw => hdeep l w hw,
    fun _ _ _ _ l w _ hw _ => hdeep l w hw, fun _ _ _ l w _ hw _ _ _ => hdeep l w hw,
    fun _ _ _ l w _ hw _ _ _ => hdeep l w hw⟩

/-- A level of evaluation is grounded if the one below it is. -/
theorem evaluatorIn_grounded {k : Horizon} {c : Context} (hc : c.Grounded k) :
    (evaluatorIn c).Grounded k where
  eval n e isHead l w h := grounded_evaluate n e isHead c l w (.refl _) (hc.mono h)
  exec n e labels l w h := grounded_execute n e labels c l w (.refl _) (hc.mono h)
  bind n _ e mode l w h hw hv := grounded_bindPattern hv e mode n c l w (.refl _) (hc.mono h) hw
  call _ _ _ l w h hw hf hthis hargs :=
    grounded_callValue hargs hf hthis c l w (.refl _) (hc.mono h) hw
  construct _ _ _ l w h hw hf hargs hnew :=
    grounded_constructValue hargs hf hnew c l w (.refl _) (hc.mono h) hw

/-- All levels are grounded, by induction from the one that has none below. -/
theorem evaluator_grounded (source : String) (wantsText : Bool) (levels : Nat) :
    (evaluator source wantsText levels).Grounded (initialWorld.horizon []) := by
  induction levels with
  | zero => exact exhausted_grounded _
  | succ levels ih => exact evaluatorIn_grounded ⟨known_realm_setting, ih⟩

end Stepper.Execution
