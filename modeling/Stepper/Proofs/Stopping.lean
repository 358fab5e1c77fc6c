import Stepper.Proofs.Acts
import Stepper.Proofs.Heeding

/-!
A stop is final. An engine that has been stopped in a run is halted: it neither runs nor is paused,
it loses every further control, and its gate lets no step through. Each deed of a session leaves a
halted engine halted, with the steps that it has, and writes nothing into the log that shows a run
or tells of another step. The program is told of the stop at its next step and heeds it there, so
the run ends stopped, unless it has failed in the meantime.
-/
namespace Stepper.Engine

open Execution Machine Syntax
open Relation (ReflTransGen)

namespace State

/-- Stopped in a run that has not been released yet. -/
structure Halted (s : State) : Prop where
  busy : s.busy = true
  stopRequested : s.stopRequested = true
  running : s.running = false
  paused : s.paused = false

/-- What holds in a run at any time: the engine is claimed, it does not run once it is stopped, and
it has counted its steps. -/
structure Underway (s : State) : Prop where
  busy : s.busy = true
  stopped : s.stopRequested = true → s.running = false ∧ s.paused = false
  counted : s.record.count = s.record.steps.length

variable {s : State}

theorem Halted.apply (h : s.Halted) (c : Control) : s.apply c = s := by
  cases c <;> simp [State.apply, State.pause, State.resume, State.stop, State.stepForward,
    h.stopRequested, h.running, h.paused]

theorem Halted.pass (h : s.Halted) (id line : Int) : s.pass id line = (false, s) := by
  simp [pass_eq, h.running]

theorem Halted.modifyRecord (h : s.Halted) (r : Record) : Halted { s with record := r } :=
  ⟨h.busy, h.stopRequested, h.running, h.paused⟩

/-- A stop that an engine in a run is given halts it, be it the first one or not. -/
theorem Underway.halted_stop (h : s.Underway) : (s.apply .stop).Halted := by
  rw [apply_stop, h.busy]
  cases hs : s.stopRequested with
  | false => exact ⟨rfl, rfl, rfl, rfl⟩
  | true => exact ⟨h.busy, hs, (h.stopped hs).1, (h.stopped hs).2⟩

theorem Underway.apply (h : s.Underway) (c : Control) : (s.apply c).Underway := by
  refine ⟨by rw [busy_apply, h.busy], ?_, by rw [record_apply, h.counted]⟩
  have hstopped := h.stopped
  cases c <;> simp only [State.apply, State.pause, State.resume, State.stop, State.stepForward] <;>
    split <;> simp_all

theorem Underway.pass (h : s.Underway) (id line : Int) : (s.pass id line).2.Underway := by
  obtain ⟨-, hpass⟩ | ⟨-, -, hpass⟩ | ⟨-, -, hpass⟩ := s.pass_cases id line
  · rw [hpass]
    exact h
  · rw [hpass]
    exact ⟨h.busy, fun _ => ⟨rfl, rfl⟩, h.counted⟩
  · rw [hpass]
    exact ⟨h.busy, h.stopped, by simp [h.counted]⟩

theorem stopRequested_apply (h : s.stopRequested = true) (c : Control) :
    (s.apply c).stopRequested = true := by
  cases c <;> simp only [State.apply, State.pause, State.resume, State.stop, State.stepForward] <;>
    split <;> simp [h]

theorem stopRequested_stop (h : s.busy = true) : (s.apply .stop).stopRequested = true := by
  rw [apply_stop, h]
  cases hs : s.stopRequested with
  | false => rfl
  | true => exact hs

/-- A released engine loses every control. -/
theorem apply_finish (s : State) (outcome : Status) (c : Control) :
    (s.finish outcome).apply c = s.finish outcome := by
  cases c <;> simp [State.apply, State.pause, State.resume, State.stop, State.stepForward,
    State.finish]

end State

/-! ### The log -/

/-- Shows that a stop was given, and what it left. -/
def Entry.ShowsStop (e : Entry) (after : Reading) : Prop :=
  e = .controlled .stop after ∨ e = .woken .stop after

/-- Shows no run and tells of no step but `latest`; the steps are as many as they were. -/
def Entry.Silent (count : Nat) (latest : Option StepRecord) : Entry → Prop
  | .controlled _ r | .woken _ r => r.running = false ∧ r.paused = false ∧ r.step = count
  | .heard _ (.step r) => latest = some r
  | _ => True

theorem Entry.IsRemark.silent {e : Entry} (h : e.IsRemark) (count : Nat)
    (latest : Option StepRecord) : e.Silent count latest := by
  cases e <;> trivial

namespace Session

variable {s t u : Session}

/-- From one session to another a halted engine stays halted, and all is silent. -/
structure Hushed (latest : Option StepRecord) (s t : Session) : Prop where
  halted : t.state.Halted
  count : t.state.record.count = s.state.record.count
  steps : t.state.record.steps = s.state.record.steps
  log : ∃ es, t.log = es ++ s.log ∧ ∀ e ∈ es, e.Silent s.state.record.count latest

variable {latest : Option StepRecord}

theorem Hushed.refl (h : s.state.Halted) : Hushed latest s s := ⟨h, rfl, rfl, [], rfl, by simp⟩

theorem Hushed.trans (h : Hushed latest s t) (k : Hushed latest t u) : Hushed latest s u := by
  obtain ⟨es, hes, hsilent⟩ := h.log
  obtain ⟨fs, hfs, hsilent'⟩ := k.log
  refine ⟨k.halted, k.count.trans h.count, k.steps.trans h.steps, fs ++ es,
    by rw [hfs, hes, List.append_assoc], fun e he => ?_⟩
  rcases List.mem_append.mp he with he | he
  · exact h.count ▸ hsilent' e he
  · exact hsilent e he

/-- An entry that is silent, beside the same state. -/
theorem Hushed.note (h : s.state.Halted) {e : Entry} (he : e.Silent s.state.record.count latest) :
    Hushed latest s (s.note e) := ⟨h, rfl, rfl, [e], rfl, by simpa using he⟩

theorem Hushed.aside (h : s.state.Halted) (hstate : t.state = s.state) (hlog : t.log = s.log) :
    Hushed latest s t := by
  refine ⟨hstate ▸ h, by rw [hstate], by rw [hstate], [], hlog, by simp⟩

theorem Hushed.modifyRecord (h : s.state.Halted) (f : Record → Record)
    (hcount : ∀ r, (f r).count = r.count) (hsteps : ∀ r, (f r).steps = r.steps) :
    Hushed latest s (s.modifyState fun e => { e with record := f e.record }) :=
  ⟨h.modifyRecord _, hcount _, hsteps _, [], rfl, by simp⟩

/-- A control is lost, and the reading after it shows no run. -/
theorem Hushed.control (h : s.state.Halted) (c : Control) : s.control c = s ∧
    Hushed latest s ((s.control c).note (.controlled c (s.control c).state.reading)) ∧
    Hushed latest s (s.wake c) := by
  have hlost : s.control c = s := congrArg (fun e => { s with state := e }) (h.apply c)
  refine ⟨hlost, ?_, ?_⟩
  · rw [hlost]
    exact .note h ⟨h.running, h.paused, rfl⟩
  · unfold wake
    rw [hlost]
    exact .note h ⟨h.running, h.paused, rfl⟩

theorem Act.hushed (h : Act s t) (hs : s.state.Halted) :
    Hushed s.state.record.steps.head? s t := by
  cases h with
  | aside hstate hlog => exact .aside hs hstate hlog
  | control c => exact (Hushed.control hs c).2.1
  | wake c => exact (Hushed.control hs c).2.2
  | remark he => exact .note hs (he.silent ..)
  | hear who n hn =>
    refine .note hs ?_
    cases n with
    | step r => exact hn r rfl
    | console r => trivial
    | error r => trivial
  | pass id line hfree =>
    rw [hs.pass]
    exact .aside hs rfl rfl
  | record hf => exact .modifyRecord hs _ hf.count hf.steps

/-- Whatever is done after a stop, all stays silent. -/
theorem Deeds.hushed (h : Deeds s t) (hs : s.state.Halted) :
    Hushed s.state.record.steps.head? s t := by
  induction h with
  | refl => exact .refl hs
  | @tail t u h hd ih =>
    refine ih.trans ?_
    rcases hd with hd | ⟨e, rfl⟩
    · exact ih.steps ▸ hd.hushed ih.halted
    · exact .modifyRecord ih.halted (·.addError e) (fun _ => rfl) fun _ => rfl

theorem hushed_surroundings (latest : Option StepRecord) :
    Surroundings fun s t => s.state.Halted → Hushed latest s t where
  refl _ hs := .refl hs
  trans hst htu hs := (hst hs).trans (htu (hst hs).halted)
  aside _ _ hstate hlog hs := .aside hs hstate hlog
  control _ c hs := (Hushed.control hs c).2.1
  wake _ c hs := (Hushed.control hs c).2.2
  remark _ _ he hs := .note hs (he.silent ..)

/-- A console record is delivered after a stop, too; no step is told of. -/
theorem Hushed.write (hs : s.state.Halted) (kind : ConsoleKind) (message : Text) :
    Hushed none s (s.write kind message).2 := by
  have hwrite : Hushed none s
      (s.modifyState fun e => { e with record := e.record.write ⟨kind, message⟩ }) :=
    .modifyRecord hs (·.write ⟨kind, message⟩) (fun _ => rfl) fun _ => rfl
  have hdeliver := (hushed_surroundings none).deliverBusy (n := .console ⟨kind, message⟩)
    (fun _ _ hs => .note hs trivial) _ hwrite.halted
  simpa [Session.write] using hwrite.trans hdeliver

theorem Hushed.takeDown (hs : s.state.Halted) (c : Call) : Hushed none s (s.takeDown c).2 := by
  unfold Session.takeDown
  cases hf : recording c with
  | ok f => exact .modifyRecord hs f (keeps_recording hf).count (keeps_recording hf).steps
  | error f => exact .refl hs

/-- The program is told of a stop at its next step. -/
theorem hear_step_of_halted (hs : s.state.Halted) (id line : Int) :
    hear (.step id line) s = (.stop, s.meanwhile) := by
  have hnow : s.meanwhile.state.Halted := ((hushed_surroundings none).meanwhile s hs).halted
  simp [hear, step, hnow.running]

/-- Whatever the program tells after a stop, no step is recorded and none is told of. -/
theorem hushed_hear (hs : s.state.Halted) (c : Call) : Hushed none s (hear c s).2 := by
  have hnow : Hushed none s s.meanwhile := (hushed_surroundings none).meanwhile s hs
  cases c with
  | step id line => exact hear_step_of_halted hs id line ▸ hnow
  | console kind m =>
    cases m with
    | text message => exact hnow.trans (.write hnow.halted kind message)
    | values h room vs => exact hnow.trans (.takeDown hnow.halted _)
  | _ => exact hnow.trans (.takeDown hnow.halted _)

/-! ### The time of a stop -/

theorem Act.underway (h : Act s t) (hs : s.state.Underway) : t.state.Underway := by
  cases h with
  | aside hstate hlog => exact hstate ▸ hs
  | control c => exact hs.apply c
  | wake c => exact hs.apply c
  | remark he => exact hs
  | hear who n hn => exact hs
  | pass id line hfree => exact hs.pass id line
  | record hf =>
    exact ⟨hs.busy, hs.stopped, by simp [modifyState, hf.count, hf.steps, hs.counted]⟩

theorem Deeds.underway (h : Deeds s t) (hs : s.state.Underway) : t.state.Underway := by
  induction h with
  | refl => exact hs
  | tail h hd ih =>
    rcases hd with hd | ⟨e, rfl⟩
    · exact hd.underway ih
    · exact ⟨ih.busy, ih.stopped, ih.counted⟩

theorem Act.busy (h : Act s t) : t.state.busy = s.state.busy := by
  cases h with
  | aside hstate hlog => rw [hstate]
  | control c => exact State.busy_apply s.state c
  | wake c => exact State.busy_apply s.state c
  | remark he => rfl
  | hear who n hn => rfl
  | pass id line hfree =>
    obtain ⟨-, hpass⟩ | ⟨-, -, hpass⟩ | ⟨-, -, hpass⟩ := s.state.pass_cases id line <;> rw [hpass]
  | record hf => rfl

theorem Act.stopRequested (h : Act s t) (hs : s.state.stopRequested = true) :
    t.state.stopRequested = true := by
  cases h with
  | aside hstate hlog => rwa [hstate]
  | control c => exact State.stopRequested_apply hs c
  | wake c => exact State.stopRequested_apply hs c
  | remark he => exact hs
  | hear who n hn => exact hs
  | pass id line hfree =>
    obtain ⟨-, hpass⟩ | ⟨-, -, hpass⟩ | ⟨-, -, hpass⟩ := s.state.pass_cases id line <;> rw [hpass]
    · exact hs
    · exact hs
  | record hf => exact hs

theorem Act.errors (h : Act s t) : t.state.record.errors = s.state.record.errors := by
  cases h with
  | aside hstate hlog => rw [hstate]
  | control c => exact congrArg Record.errors (State.record_apply s.state c)
  | wake c => exact congrArg Record.errors (State.record_apply s.state c)
  | remark he => rfl
  | hear who n hn => rfl
  | pass id line hfree =>
    obtain ⟨-, hpass⟩ | ⟨-, -, hpass⟩ | ⟨-, -, hpass⟩ := s.state.pass_cases id line <;> rw [hpass]
    rfl
  | record hf => exact hf.errors _

theorem Deeds.busy (h : Deeds s t) : t.state.busy = s.state.busy := by
  induction h with
  | refl => rfl
  | tail h hd ih =>
    rcases hd with hd | ⟨e, rfl⟩
    · exact hd.busy.trans ih
    · exact ih

theorem Deeds.stopRequested (h : Deeds s t) (hs : s.state.stopRequested = true) :
    t.state.stopRequested = true := by
  induction h with
  | refl => exact hs
  | tail h hd ih =>
    rcases hd with hd | ⟨e, rfl⟩
    · exact hd.stopRequested ih
    · exact ih

theorem Acts.errors (h : Acts s t) : t.state.record.errors = s.state.record.errors := by
  induction h with
  | refl => rfl
  | tail h ha ih => exact ha.errors.trans ih

/-- A deed writes at most one entry, and a stop that is shown was given. -/
theorem Deed.log (h : Deed s t) : t.log = s.log ∨ ∃ e, t.log = e :: s.log ∧
    ∀ r, e.ShowsStop r → t.state = s.state.apply .stop ∧ r = t.state.reading := by
  rcases h with h | ⟨e, rfl⟩
  · cases h with
    | aside hstate hlog => exact .inl hlog
    | control c =>
      refine .inr ⟨_, rfl, fun r hr => ?_⟩
      rcases hr with hr | hr
      · cases hr
        exact ⟨rfl, rfl⟩
      · cases hr
    | wake c =>
      refine .inr ⟨_, rfl, fun r hr => ?_⟩
      rcases hr with hr | hr
      · cases hr
      · cases hr
        exact ⟨rfl, rfl⟩
    | @remark e he =>
      refine .inr ⟨e, rfl, fun r hr => ?_⟩
      rcases hr with rfl | rfl <;> exact he.elim
    | hear who n hn =>
      refine .inr ⟨_, rfl, fun r hr => ?_⟩
      rcases hr with hr | hr <;> cases hr
    | pass id line hfree => exact .inl rfl
    | record hf => exact .inl rfl
  · exact .inl rfl

theorem Deed.state_of_showsStop (h : Deed s t) {earlier : List Entry} {e : Entry} {after : Reading}
    (hs : s.log = earlier) (ht : t.log = e :: earlier) (he : e.ShowsStop after) :
    t.state = s.state.apply .stop ∧ after = t.state.reading := by
  rcases h.log with hlog | ⟨x, hlog, hx⟩
  · simp [hs, ht] at hlog
  · rw [hs, ht] at hlog
    cases hlog
    exact hx after he

/-- An entry that was made on the way was made at some moment. -/
theorem Deeds.moment (h : Deeds s t) {later earlier : List Entry} {e : Entry}
    (hlog : t.log = later ++ e :: earlier) (hnew : s.log.length ≤ earlier.length) :
    ∃ u v, Deeds s u ∧ Deed u v ∧ Deeds v t ∧ u.log = earlier ∧ v.log = e :: earlier := by
  induction h generalizing later with
  | refl =>
    have hlength := congrArg List.length hlog
    simp only [List.length_append, List.length_cons] at hlength
    omega
  | @tail m t h hd ih =>
    have hbefore {later : List Entry} (hm : m.log = later ++ e :: earlier) :
        ∃ u v, Deeds s u ∧ Deed u v ∧ Deeds v t ∧ u.log = earlier ∧ v.log = e :: earlier := by
      obtain ⟨u, v, hu, huv, hv, hlogs⟩ := ih hm
      exact ⟨u, v, hu, huv, hv.tail hd, hlogs⟩
    rcases hd.log with hm | ⟨x, hm, -⟩
    · exact hbefore (hm ▸ hlog)
    · rw [hlog] at hm
      cases later with
      | nil =>
        cases hm
        exact ⟨m, t, h, hd, .refl, rfl, hlog⟩
      | cons y later =>
        simp only [List.cons_append, List.cons.injEq] at hm
        exact hbefore hm.2.symm

/-! ### Runs -/

/-- The session at the end of a run, right before it is released. -/
def pursued (p : Except SyntaxFault Program) (o : Options) (s : Session) : Session :=
  (followRead p (s.begun o)).2.meanwhile

variable (p : Except SyntaxFault Program) (o : Options)

theorem deeds_pursued (s : Session) : Deeds (s.begun o) (s.pursued p o) :=
  (follows_followRead p _).deeds.trans (acts_surroundings.meanwhile _).deeds

/-- Controls that an engine loses do not change it, however many. -/
theorem state_meanwhile (h : ∀ c, s.state.apply c = s.state) : s.meanwhile.state = s.state := by
  let R (s t : Session) : Prop := (∀ c, s.state.apply c = s.state) → t.state = s.state
  have hR : Surroundings R := {
    refl := fun _ _ => rfl
    trans := fun hst htu hs =>
      have hstate := hst hs
      (htu (hstate ▸ hs)).trans hstate
    aside := fun _ _ hstate _ _ => hstate
    control := fun _ c hs => hs c
    wake := fun _ c hs => hs c
    remark := fun _ _ _ _ => rfl }
  exact hR.meanwhile s h

theorem runClaimed_eq (s : Session) : s.runClaimed p o =
    match (followRead p (s.begun o)).1 with
    | .ok status =>
      (.ok ((s.pursued p o).state.record.trace ((s.pursued p o).state.finalStatus status)),
        ((s.pursued p o).modifyState (·.finish status)).meanwhile)
    | .error e => (.error e, (s.pursued p o).modifyState (·.finish .failed)) := by
  rw [runClaimed_eq_release]
  cases hstatus : (followRead p (s.begun o)).1 with
  | ok status =>
    have hreleased := state_meanwhile (s := (s.pursued p o).modifyState (·.finish status))
      fun c => State.apply_finish _ _ c
    have hrelease : release (.ok status) (followRead p (s.begun o)).2 =
      (.ok (((s.pursued p o).modifyState (·.finish status)).meanwhile.state.record.trace
        ((s.pursued p o).modifyState (·.finish status)).meanwhile.state.status),
        ((s.pursued p o).modifyState (·.finish status)).meanwhile) := rfl
    rw [hrelease, hreleased]
    rfl
  | error e => rfl

theorem underway_begun (h : s.state.busy = true) : (s.begun o).state.Underway := by
  have hbusy : s.meanwhile.state.busy = true := (acts_surroundings.meanwhile s).deeds.busy.trans h
  exact ⟨hbusy, fun hs => ⟨congrArg not hs, rfl⟩, rfl⟩

/-- How a run ends in which `count` steps had been recorded when it was stopped, and `later` was
logged after that. -/
structure EndsStopped (count : Nat) (later : List Entry) (p : Except SyntaxFault Program)
    (o : Options) (s : Session) : Prop where
  silent : ∀ e ∈ later, e.Silent count (s.pursued p o).state.record.steps.head?
  steps : (s.pursued p o).state.record.steps.length = count
  halted : (s.pursued p o).state.Halted
  trace : ∀ t, (s.runClaimed p o).1 = .ok t → t.steps.length = count ∧
    (t.status = .stopped ∧ t.errors = [] ∨ t.status = .failed ∧ t.errors ≠ [])
  error : ∀ e, (s.runClaimed p o).1 = .error e → (s.runClaimed p o).2.state.status = .failed

variable {p o}

/-- A run that was stopped does not end as completed. -/
theorem trace_of_halted (hhalted : (s.pursued p o).state.Halted) {t : Trace}
    (ht : (s.runClaimed p o).1 = .ok t) :
    t.steps.length = (s.pursued p o).state.record.steps.length ∧
      (t.status = .stopped ∧ t.errors = [] ∨ t.status = .failed ∧ t.errors ≠ []) := by
  have hmeanwhile := acts_surroundings.meanwhile (followRead p (s.begun o)).2
  have hfollows := follows_followRead p (s.begun o)
  rw [runClaimed_eq] at ht
  cases hstatus : (followRead p (s.begun o)).1 with
  | error e => simp [hstatus] at ht
  | ok status =>
    rw [hstatus] at ht hfollows
    cases ht
    refine ⟨List.length_reverse, ?_⟩
    cases hfollows with
    | ended h hended =>
      have herrors : (s.pursued p o).state.record.errors = [] := Acts.errors (h.trans hmeanwhile)
      refine .inl ⟨?_, congrArg List.reverse herrors⟩
      rcases hended with rfl | rfl <;>
        simp [Record.trace, State.finalStatus, hhalted.stopRequested]
    | @failed m _ e h h' =>
      have herrors : (s.pursued p o).state.record.errors = e :: m.state.record.errors :=
        Acts.errors (h'.trans hmeanwhile)
      refine .inr ⟨by simp [Record.trace, State.finalStatus], ?_⟩
      simp [Record.trace, herrors]

theorem endsStopped_of_halted (h : s.state.busy = true) {v : Session} (hv : Deeds (s.begun o) v)
    (hhalted : v.state.Halted) (hrest : Deeds v (s.pursued p o)) {later : List Entry}
    (hlog : (s.pursued p o).log = later ++ v.log) :
    EndsStopped v.state.record.count later p o s := by
  have hhushed := hrest.hushed hhalted
  have hcounted := (hv.underway (underway_begun o h)).counted
  obtain ⟨es, hes, hsilent⟩ := hhushed.log
  obtain rfl : later = es := by simpa using hlog.symm.trans hes
  have hsteps : (s.pursued p o).state.record.steps.length = v.state.record.count := by
    rw [hhushed.steps, hcounted]
  refine ⟨?_, hsteps, hhushed.halted, fun t ht => ?_, fun e he => ?_⟩
  · rw [hhushed.steps]
    exact hsilent
  · exact ⟨(trace_of_halted hhushed.halted ht).1.trans hsteps,
      (trace_of_halted hhushed.halted ht).2⟩
  · rw [runClaimed_eq] at he ⊢
    cases hstatus : (followRead p (s.begun o)).1 with
    | ok status => simp [hstatus] at he
    | error e => simp [modifyState, State.finish, State.finalStatus]

/-- A stop between the claim of an engine and the start of its run is known when the run begins. -/
theorem stopRequested_begun (h : s.state.busy = true) {middle earlier : List Entry} {e : Entry}
    {after : Reading} (hlog : (s.begun o).log = middle ++ e :: earlier)
    (hnew : s.log.length ≤ earlier.length) (he : e.ShowsStop after) :
    (s.begun o).state.stopRequested = true := by
  have hmeanwhile : Deeds s s.meanwhile := (acts_surroundings.meanwhile s).deeds
  obtain ⟨u, v, hu, huv, hv, hulog, hvlog⟩ := hmeanwhile.moment hlog hnew
  have hv' := huv.state_of_showsStop hulog hvlog he
  exact hv.stopRequested (hv'.1 ▸ State.stopRequested_stop (hu.busy.trans h))

/-- How a stop ends a run, given at any moment since the engine was claimed: while the run goes on
there is no further step, and before it begins there is none at all. -/
def StopEnds (p : Except SyntaxFault Program) (o : Options) (s : Session) : Prop :=
  ∀ later e earlier after, Entry.ShowsStop e after →
    ((s.pursued p o).log = later ++ e :: earlier → (s.begun o).log.length ≤ earlier.length →
      EndsStopped after.step later p o s) ∧
    ∀ middle, (s.begun o).log = middle ++ e :: earlier → s.log.length ≤ earlier.length →
      (s.pursued p o).log = later ++ (s.begun o).log → EndsStopped 0 later p o s

/-- A program hears of a stop at its next step, and ends right there. -/
def HearsOfStop (p : Program) : Prop :=
  (∀ t : Session, t.state.Halted → ∀ id line, t.hear (.step id line) = (.stop, t.meanwhile)) ∧
    (course p host.wantsText).Heeds ∧
    ∀ i w x, details p host.wantsText i w = some x → x.Heeds

end Session

open Session

/-- No step is taken after a stop. Wherever the log of a run tells of one, it tells of no new step
after it; the engine has no more steps recorded than there were then, its flags are down, and the
run ends as stopped, or as failed if the program fails before its next step. An engine that has been
stopped stays so and records no step, whatever it hears; and the program is told at its next step,
and ends right there. -/
theorem no_step_after_stop (p : Except SyntaxFault Program) (o : Options) (s : Session)
    (hbusy : s.state.busy = true) :
    s.StopEnds p o ∧ (∀ t : Session, t.state.Halted → ∀ c, Hushed none t (hear c t).2) ∧
      ∀ q, p = .ok q → HearsOfStop q := by
  refine ⟨fun later e earlier after he => ⟨fun hlog hnew => ?_, fun middle hlog hnew hrest => ?_⟩,
    fun t ht c => hushed_hear ht c, fun q _ => ⟨fun t ht => hear_step_of_halted ht,
      course_heeds q _, fun i w x hx => details_heeds hx⟩⟩
  · obtain ⟨u, v, hu, huv, hv, hulog, hvlog⟩ := (deeds_pursued p o s).moment hlog hnew
    obtain ⟨hstate, rfl⟩ := huv.state_of_showsStop hulog hvlog he
    have hhalted : v.state.Halted :=
      hstate ▸ (hu.underway (underway_begun o hbusy)).halted_stop
    exact endsStopped_of_halted hbusy (hu.tail huv) hhalted hv (hvlog ▸ hlog)
  · have hstopped := stopRequested_begun (o := o) hbusy hlog hnew he
    have hbegun := underway_begun o hbusy
    have hhalted : (s.begun o).state.Halted :=
      ⟨hbegun.busy, hstopped, (hbegun.stopped hstopped).1, (hbegun.stopped hstopped).2⟩
    exact endsStopped_of_halted hbusy .refl hhalted (deeds_pursued p o s) hrest

/-- An engine that has been claimed, and that others stop before its run begins. -/
def forestalled : Session where
  state := { busy := true }
  others := [[.pause, .stop, .resume]]

/-- An engine that has been claimed. -/
def claimedEngine : Session where
  state := { busy := true }

/-- Stops the run at the first step that it hears of. -/
def stopper : Observer where
  name := "stopper"
  channel := .step
  answer n := if n == 1 then [.control .stop] else []

/-- Tells the host of two steps. -/
def twoSteps : String := "__step(1, 1); __step(2, 2);"

/-- What the flags show after a stop that an entry tells of. -/
def stopShown? : Entry → Option Reading
  | .controlled .stop r | .woken .stop r => some r
  | _ => none

theorem showsStop_of_stopShown {e : Entry} {after : Reading} (h : stopShown? e = some after) :
    e.ShowsStop after := by
  unfold stopShown? at h
  split at h
  · cases h
    exact .inl rfl
  · cases h
    exact .inr rfl
  · cases h

/-- A stop before the run begins leaves no step, and one at the first of two steps leaves that. -/
theorem stops_end_runs :
    forestalled.state.busy = true ∧
      (∃ later, EndsStopped 0 later (read "let x = 1; x++;") {} forestalled) ∧
    claimedEngine.state.busy = true ∧
      ∃ later, EndsStopped 1 later (read twoSteps) { observers := [stopper] } claimedEngine := by
  refine ⟨rfl, ?_, rfl, ?_⟩
  · have hhalted : (forestalled.begun {}).state.Halted := ⟨rfl, rfl, rfl, rfl⟩
    obtain ⟨later, hlater, -⟩ :=
      ((deeds_pursued (read "let x = 1; x++;") {} forestalled).hushed hhalted).log
    let after : Reading := ⟨.idle, false, false, 0⟩
    have hends := (no_step_after_stop (read "let x = 1; x++;") {} forestalled rfl).1 later
      (.woken .stop after) [.woken .pause after] after (.inr rfl)
    exact ⟨later, hends.2 [.woken .resume after] rfl (Nat.zero_le _) hlater⟩
  · have hlog : ((claimedEngine.pursued (read twoSteps) { observers := [stopper] }).log.findSome?
        stopShown?).map (·.step) = some 1 := by decide +kernel
    obtain ⟨after, hfound, hstep⟩ := Option.map_eq_some_iff.mp hlog
    obtain ⟨later, e, earlier, hsplit, hshown, -⟩ := List.findSome?_eq_some_iff.mp hfound
    have hends := (no_step_after_stop (read twoSteps) { observers := [stopper] } claimedEngine rfl).1
      later e earlier after (showsStop_of_stopShown hshown)
    exact ⟨later, hstep ▸ hends.1 hsplit (Nat.zero_le _)⟩

end Stepper.Engine
