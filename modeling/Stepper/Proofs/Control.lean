import Stepper.Engine.Control

/-!
What pausing changes of an engine. To pause, to resume and to let one step pass set three things:
the status, the flag that says the engine is paused, and the allowance. The rest of a state is its
essence. No control but stop touches the essence, and the essence alone decides what the gate does.
An engine at rest loses every control.
-/
namespace Stepper.Engine

/-- A control that ends no run. -/
def Control.Mild (c : Control) : Prop := c ≠ .stop

namespace State

/-- A state without what pausing changes. -/
def essence (s : State) : State := { s with status := .idle, paused := false, allowance := false }

/-- Whether a run is claimed does not depend on pauses. -/
@[simp] theorem busy_essence (s : State) : s.essence.busy = s.busy := rfl
@[simp] theorem running_essence (s : State) : s.essence.running = s.running := rfl
@[simp] theorem stopRequested_essence (s : State) : s.essence.stopRequested = s.stopRequested := rfl
@[simp] theorem record_essence (s : State) : s.essence.record = s.record := rfl
@[simp] theorem atLimit_essence (s : State) : s.essence.atLimit = s.atLimit := rfl

/-- A pause changes nothing else. -/
@[simp] theorem essence_pause (s : State) : s.pause.essence = s.essence := by
  unfold pause
  split <;> rfl

@[simp] theorem essence_resume (s : State) : s.resume.essence = s.essence := by
  unfold resume
  split <;> rfl

@[simp] theorem essence_stepForward (s : State) : s.stepForward.essence = s.essence := by
  unfold stepForward
  split <;> rfl

/-- No control but a stop changes anything else. -/
theorem essence_apply {c : Control} (hc : c.Mild) (s : State) :
    (s.apply c).essence = s.essence := by
  cases c with
  | pause => exact essence_pause s
  | resume => exact essence_resume s
  | stop => exact absurd rfl hc
  | stepForward => exact essence_stepForward s

theorem apply_stop (s : State) :
    s.apply .stop = if s.busy && !s.stopRequested then
      { s with running := false, paused := false, stopRequested := true } else s := rfl

/-- A step passes if the run goes on and has not come to its limit. -/
theorem pass_eq (s : State) (id line : Int) :
    s.pass id line =
      if !s.running then (false, s)
      else if s.atLimit then
        (false, { s with
          running := false, paused := false, allowance := false, stopRequested := true })
      else (true, { s with allowance := false, record := s.record.addStep id line }) := rfl

/-- Whether a step may pass does not depend on how the run came to the gate. -/
theorem pass_essence (s : State) (id line : Int) :
    (s.essence.pass id line).1 = (s.pass id line).1 ∧
      (s.essence.pass id line).2.essence = (s.pass id line).2.essence := by
  rw [pass_eq, pass_eq, running_essence, atLimit_essence]
  cases s.running with
  | false => exact ⟨rfl, rfl⟩
  | true =>
    cases s.atLimit with
    | false => exact ⟨rfl, rfl⟩
    | true => exact ⟨rfl, rfl⟩

/-- States that differ by pauses let the same steps through. -/
theorem pass_alike {s t : State} (h : s.essence = t.essence) (id line : Int) :
    (s.pass id line).1 = (t.pass id line).1 ∧
      (s.pass id line).2.essence = (t.pass id line).2.essence := by
  obtain ⟨hs, hs'⟩ := s.pass_essence id line
  obtain ⟨ht, ht'⟩ := t.pass_essence id line
  rw [← h] at ht ht'
  exact ⟨hs.symm.trans ht, hs'.symm.trans ht'⟩

/-- An engine at which controls are lost. -/
structure AtRest (s : State) : Prop where
  running : s.running = false
  paused : s.paused = false

/-- Controls that do not stop change nothing at rest. -/
theorem AtRest.apply {s : State} (h : s.AtRest) {c : Control} (hc : c.Mild) : s.apply c = s := by
  cases c with
  | pause => simp [State.apply, State.pause, h.running]
  | resume => simp [State.apply, State.resume, h.paused]
  | stop => exact absurd rfl hc
  | stepForward => simp [State.apply, State.stepForward, h.running]

/-- Without a run there is nothing to stop, either. -/
theorem AtRest.apply_of_free {s : State} (h : s.AtRest) (hfree : s.busy = false) (c : Control) :
    s.apply c = s := by
  by_cases hc : c = .stop
  · subst hc
    simp [apply_stop, hfree]
  · exact h.apply hc

theorem atRest_finish (s : State) (outcome : Status) : (s.finish outcome).AtRest := ⟨rfl, rfl⟩

end State
end Stepper.Engine
