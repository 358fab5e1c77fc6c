import Mathlib.Logic.Function.Iterate
import Stepper.Proofs.Acts

/-!
How a pause holds a run. Each step that a run takes while it is paused uses up a permit, and nothing
but a step forward gives one. An engine keeps one permit at most, so of several steps forward at the
gate one step comes. But a permit outlives the pause in which it was given: a run that is let go
before it has used its permit can use it in the next pause, in which nobody asked for a step.
-/
namespace Stepper.Engine

open Relation (ReflTransGen)

/-- A control that lets a paused run go. -/
def Control.Frees (c : Control) : Prop := c = .resume ∨ c = .stop

namespace State

variable {s : State}

/-- Paused, unless the run has ended. -/
def OnHold (s : State) : Prop := s.running = true → s.paused = true

/-- The steps that were taken, and the one that may be. -/
def permitted (s : State) : Nat := s.record.count + s.allowance.toNat

theorem OnHold.apply (h : s.OnHold) {c : Control} (hc : ¬ c.Frees) : (s.apply c).OnHold := by
  cases c with
  | pause =>
    intro hrunning
    simp only [State.apply, pause] at hrunning ⊢
    split
    · rfl
    · next hnot =>
      rw [if_neg hnot] at hrunning
      exact h hrunning
  | resume => exact absurd (.inl rfl) hc
  | stop => exact absurd (.inr rfl) hc
  | stepForward =>
    intro hrunning
    simp only [State.apply, stepForward] at hrunning ⊢
    split
    · next hpaused => simp_all
    · next hnot =>
      rw [if_neg hnot] at hrunning
      exact h hrunning

/-- Only a step forward permits a step, and it does not permit two. -/
theorem permitted_apply (s : State) (c : Control) :
    (s.apply c).permitted ≤ s.permitted + if c = .stepForward then 1 else 0 := by
  cases c with
  | stepForward =>
    simp only [State.apply, stepForward, permitted]
    split
    · simp
    · simp
  | _ =>
    simp only [State.apply, pause, resume, stop, permitted]
    split <;> simp

/-- At the gate, a run that is on hold takes the step that was permitted, or none. -/
theorem OnHold.pass (h : s.OnHold) (hfree : s.isHeld = false) (id line : Int) :
    (s.pass id line).2.OnHold ∧ (s.pass id line).2.permitted ≤ s.permitted := by
  obtain ⟨-, hpass⟩ | ⟨-, -, hpass⟩ | ⟨hrunning, -, hpass⟩ := s.pass_cases id line
  · rw [hpass]
    exact ⟨h, Nat.le_refl _⟩
  · rw [hpass]
    exact ⟨fun hrunning => by simp at hrunning, by simp [permitted]⟩
  · have hallowed : s.allowance = true := by simpa [isHeld, h hrunning, hrunning] using hfree
    rw [hpass]
    exact ⟨h, by simp [permitted, hallowed]⟩

/-- However many steps forward come while a run waits at the gate, one step passes, and the run is
held at the next. -/
theorem pass_iterate_stepForward (hrunning : s.running = true) (hpaused : s.paused = true)
    (hlimit : s.atLimit = false) (k : Nat) (id line : Int) :
    (stepForward^[k + 1] s).pass id line =
        (true, { s with allowance := false, record := s.record.addStep id line }) ∧
      ((stepForward^[k + 1] s).pass id line).2.isHeld = true := by
  have hgiven : stepForward^[k + 1] s = { s with allowance := true } := by
    induction k with
    | zero => simp [stepForward, hrunning, hpaused]
    | succ k ih =>
      rw [Function.iterate_succ_apply', ih]
      simp [stepForward, hrunning, hpaused]
  have hlimit' : ({ s with allowance := true } : State).atLimit = false := hlimit
  have hpass : (stepForward^[k + 1] s).pass id line =
      (true, { s with allowance := false, record := s.record.addStep id line }) := by
    rw [hgiven, pass_eq, hlimit', if_neg (by simp [hrunning])]
    rfl
  refine ⟨hpass, ?_⟩
  rw [hpass]
  simp [isHeld, hrunning, hpaused]

/-- A permit that was given in one pause and not used is still there in the next. -/
theorem isHeld_pause_resume_stepForward (hrunning : s.running = true) (hpaused : s.paused = true) :
    s.stepForward.resume.pause.paused = true ∧ s.stepForward.resume.pause.isHeld = false := by
  simp [stepForward, resume, pause, isHeld, hrunning, hpaused]

end State

/-- The control that an entry tells of. -/
def Entry.control? : Entry → Option Control
  | .controlled c _ | .woken c _ => some c
  | _ => none

/-- An entry that tells of nothing that lets a paused run go. -/
def Entry.Holds (e : Entry) : Prop := ∀ c, e.control? = some c → ¬ c.Frees

/-- How many steps forward were asked for. -/
def stepsForward (es : List Entry) : Nat := es.countP (·.control? == some .stepForward)

@[simp] theorem stepsForward_nil : stepsForward [] = 0 := rfl

theorem stepsForward_append (es fs : List Entry) :
    stepsForward (es ++ fs) = stepsForward es + stepsForward fs := List.countP_append

theorem stepsForward_of_control {e : Entry} {c : Control} (h : e.control? = some c) :
    stepsForward [e] = if c = .stepForward then 1 else 0 := by
  simp [stepsForward, List.countP_cons, h]

theorem Entry.IsRemark.control? {e : Entry} (h : e.IsRemark) : e.control? = none := by
  cases e <;> trivial

namespace Session

variable {s t u : Session}

/-- Unless the log tells of something that lets a paused run go, a run on hold stays on hold, and
takes no more steps than are permitted and asked for. -/
def Withholds (s t : Session) : Prop :=
  ∃ es, t.log = es ++ s.log ∧ ((∀ e ∈ es, e.Holds) → s.state.OnHold →
    t.state.OnHold ∧ t.state.permitted ≤ s.state.permitted + stepsForward es)

theorem Withholds.trans (h : s.Withholds t) (k : t.Withholds u) : s.Withholds u := by
  obtain ⟨es, hes, h⟩ := h
  obtain ⟨fs, hfs, k⟩ := k
  refine ⟨fs ++ es, by rw [hfs, hes, List.append_assoc], fun hholds hs => ?_⟩
  obtain ⟨ht, hst⟩ := h (fun e he => hholds e (by simp [he])) hs
  obtain ⟨hu, htu⟩ := k (fun e he => hholds e (by simp [he])) ht
  exact ⟨hu, by rw [stepsForward_append]; omega⟩

/-- What changes neither the flags nor the number of steps. -/
theorem withholds_aside (es : List Entry) (hlog : t.log = es ++ s.log)
    (hhold : s.state.OnHold → t.state.OnHold) (hcount : t.state.permitted = s.state.permitted) :
    s.Withholds t :=
  ⟨es, hlog, fun _ hs => ⟨hhold hs, by omega⟩⟩

theorem withholds_control (c : Control) {e : Entry} (he : e.control? = some c) :
    s.Withholds ((s.control c).note e) := by
  refine ⟨[e], rfl, fun hholds hs => ⟨hs.apply (hholds e (by simp) c he), ?_⟩⟩
  rw [stepsForward_of_control he]
  exact s.state.permitted_apply c

theorem Act.withholds (h : Act s t) : s.Withholds t := by
  cases h with
  | aside hstate hlog =>
    exact withholds_aside [] hlog (fun hs => hstate ▸ hs) (by rw [hstate])
  | control c => exact withholds_control c rfl
  | wake c => exact withholds_control c rfl
  | @remark e he => exact withholds_aside [e] rfl id rfl
  | hear who n hn => exact withholds_aside [.heard who n] rfl id rfl
  | pass id line hfree => exact ⟨[], rfl, fun _ hs => hs.pass hfree id line⟩
  | @record f hf =>
    exact withholds_aside [] rfl id (by simp [modifyState, State.permitted, hf.count])

theorem Acts.withholds (h : Acts s t) : s.Withholds t := by
  induction h with
  | refl => exact withholds_aside [] rfl id rfl
  | tail _ h ih => exact ih.trans h.withholds

/-- From a moment at which a run is paused until it is let go, whatever observers and others do, the
run takes no more steps than it is asked for, but for one that was permitted before. -/
theorem steps_while_paused (h : Acts s t) (hpaused : s.state.paused = true) {es : List Entry}
    (hlog : t.log = es ++ s.log) (hholds : ∀ e ∈ es, e.Holds) :
    t.state.record.count ≤ s.state.record.count + s.state.allowance.toNat + stepsForward es := by
  obtain ⟨fs, hfs, hbound⟩ := Acts.withholds h
  obtain rfl : fs = es := List.append_cancel_right (hfs.symm.trans hlog)
  have hpermitted := (hbound hholds fun _ => hpaused).2
  simp only [State.permitted] at hpermitted
  omega

end Session
end Stepper.Engine
