import Stepper.Proofs.Folding
import Stepper.Proofs.Renewal

/-!
The trace of a run is its transcript added up. Where nobody interferes an engine takes down each
call as the scribe does, with one reply; where the console shows plain data the program goes the
same way under both. So the record of the engine is at every moment what the calls up to then come
to, and the run ends as the program ends under the scribe.
-/
namespace Stepper.Engine

open Builtin Execution Machine Syntax

/-- Options for a run that has no limit and that no observer acts on. -/
structure Options.Idle (o : Options) : Prop where
  maxSteps : o.maxSteps = none
  observers : ∀ x ∈ o.observers, x.Passive

namespace Session

variable {s t : Session}

/-- Nobody acts on the engine. -/
structure Undisturbed (s : Session) : Prop where
  others : s.others = []
  observers : ∀ o ∈ s.observers, o.Passive

theorem Undisturbed.meanwhile (h : s.Undisturbed) : s.meanwhile = s := by
  unfold Session.meanwhile
  rw [h.others]

theorem Undisturbed.modifyState (h : s.Undisturbed) (f : State → State) :
    (s.modifyState f).Undisturbed := ⟨h.others, h.observers⟩

theorem Undisturbed.heardBy (h : s.Undisturbed) (i : Nat) : (s.heardBy i).Undisturbed := by
  refine ⟨h.others, fun o ho => ?_⟩
  obtain ⟨j, hj⟩ := Array.getElem?_of_mem ho
  rw [observers_heardBy] at hj
  split at hj
  · obtain ⟨x, hx, rfl⟩ := Option.map_eq_some_iff.mp hj
    exact h.observers x (Array.mem_of_getElem? hx)
  · exact h.observers o (Array.mem_of_getElem? hj)

/-- Observers that ask for nothing only count what they hear. -/
theorem Undisturbed.tellAll (h : s.Undisturbed) (launch : Program → Session → Session) (n : Notice)
    (is : List Nat) :
    ∃ t, Session.tellAll launch n is s = (true, t) ∧ t.state = s.state ∧ t.Undisturbed := by
  induction is generalizing s with
  | nil => exact ⟨s, rfl, rfl, h⟩
  | cons i is ih =>
    have htell : ∃ t, Session.tell launch n i s = (true, t) ∧ t.state = s.state ∧
        t.Undisturbed := by
      cases ho : s.observers[i]? with
      | none => exact ⟨s, by simp [Session.tell, ho], rfl, h⟩
      | some o =>
        have hpassive : s.PassiveAt i := ⟨o, ho, h.observers o (Array.mem_of_getElem? ho)⟩
        obtain ⟨who, htell⟩ := hpassive.tell launch n
        exact ⟨_, htell, rfl, (h.heardBy i).others, (h.heardBy i).observers⟩
    obtain ⟨t, htell, hstate, ht⟩ := htell
    obtain ⟨u, hu, hstate', hundisturbed⟩ := ih ht
    unfold Session.tellAll
    rw [h.meanwhile, htell]
    exact ⟨u, hu, hstate'.trans hstate, hundisturbed⟩

theorem Undisturbed.deliverBusy (h : s.Undisturbed) (n : Notice) :
    ∃ t, s.deliverBusy n = (true, t) ∧ t.state = s.state ∧ t.Undisturbed :=
  h.tellAll _ n _

/-! ### Calls and courses -/

/-- A run that goes on undisturbed, with the record of some calls. -/
structure Recounting (s : Session) (past : List Call) : Prop extends s.Undisturbed where
  running : s.state.running = true
  paused : s.state.paused = false
  stopRequested : s.state.stopRequested = false
  maxSteps : s.state.maxSteps = none
  record : s.state.record = Record.after past

variable {past : List Call}

theorem Recounting.of_state (h : s.Recounting past) (hstate : t.state = s.state)
    (ht : t.Undisturbed) : t.Recounting past :=
  ⟨ht, hstate ▸ h.running, hstate ▸ h.paused, hstate ▸ h.stopRequested, hstate ▸ h.maxSteps,
    hstate ▸ h.record⟩

theorem Recounting.modifyRecord (h : s.Recounting past) {c : Call} {f : Record → Record}
    (hf : f (Record.after past) = (Record.after past).hears c) :
    (s.modifyState fun e => { e with record := f e.record }).Recounting (past ++ [c]) where
  toUndisturbed := h.toUndisturbed.modifyState _
  running := h.running
  paused := h.paused
  stopRequested := h.stopRequested
  maxSteps := h.maxSteps
  record := by
    change f s.state.record = _
    rw [h.record, hf, after_snoc]

theorem Recounting.deliverBusy (h : s.Recounting past) (n : Notice) :
    ∃ t, s.deliverBusy n = (true, t) ∧ t.Recounting past := by
  obtain ⟨t, ht, hstate, hundisturbed⟩ := h.toUndisturbed.deliverBusy n
  exact ⟨t, ht, h.of_state hstate hundisturbed⟩

theorem Recounting.step (h : s.Recounting past) (id line : Int) :
    ∃ t, s.step id line = (.proceed, t) ∧ t.Recounting (past ++ [.step id line]) := by
  have hfree : s.state.isHeld = false := by simp [State.isHeld, h.paused]
  have hawait : s.await s.wakes = s := by
    unfold Session.await
    simp [hfree]
  have hlimit : s.state.atLimit = false := by simp [State.atLimit, h.maxSteps]
  obtain ⟨x, hpass, hpassed⟩ : ∃ x, s.state.pass id line = (true, x) ∧
      Recounting { s with state := x } (past ++ [.step id line]) := by
    obtain ⟨hnot, -⟩ | ⟨-, hnot, -⟩ | ⟨-, -, hpass⟩ := s.state.pass_cases id line
    · simp [h.running] at hnot
    · simp [hlimit] at hnot
    · exact ⟨_, hpass, ⟨h.others, h.observers⟩, h.running, h.paused, h.stopRequested, h.maxSteps,
        by rw [h.record, after_snoc]; rfl⟩
  obtain ⟨t, ht, hrecounting⟩ := hpassed.deliverBusy (.step (s.state.record.nextStep id line))
  refine ⟨t, ?_, hrecounting⟩
  unfold Session.step
  simp only [h.running, Bool.not_true, Bool.false_eq_true, ↓reduceIte, hawait, hpass, ht]
  rfl

theorem Recounting.write (h : s.Recounting past) {c : Call} {kind : ConsoleKind} {message : Text}
    (hc : (Record.after past).hears c = (Record.after past).write ⟨kind, message⟩) :
    ∃ t, s.write kind message = (.proceed, t) ∧ t.Recounting (past ++ [c]) := by
  obtain ⟨t, ht, hrecounting⟩ :=
    (h.modifyRecord (f := (·.write ⟨kind, message⟩)) hc.symm).deliverBusy (.console ⟨kind, message⟩)
  refine ⟨t, ?_, hrecounting⟩
  unfold Session.write
  simp only [ht]
  rfl

theorem Recounting.takeDown (h : s.Recounting past) {c : Call} {f : Record → Record}
    (hrecording : recording c = .ok f)
    (hf : f (Record.after past) = (Record.after past).hears c) :
    ∃ t, s.takeDown c = (.proceed, t) ∧ t.Recounting (past ++ [c]) := by
  refine ⟨_, ?_, h.modifyRecord hf⟩
  unfold Session.takeDown
  rw [hrecording]

theorem takeDown_error {c : Call} {f : Fault} (hrecording : recording c = .error f) :
    s.takeDown c = (.fault f, s) := by
  unfold Session.takeDown
  rw [hrecording]

/-- The engine replies to a call as the scribe does, and takes down what the scribe takes down. -/
theorem Recounting.hear (h : s.Recounting past) (c : Call) :
    (∃ f, captured c = .error f ∧ Session.hear c.inText s = (.fault f, s)) ∨
    captured c = .ok () ∧
      ∃ t, Session.hear c.inText s = (.proceed, t) ∧ t.Recounting (past ++ [c]) := by
  unfold Session.hear
  rw [h.meanwhile]
  cases c with
  | step id line => exact .inr ⟨rfl, h.step id line⟩
  | console kind m => cases m <;> exact .inr ⟨rfl, h.write rfl⟩
  | exit heap room v => exact .inr ⟨rfl, h.takeDown rfl rfl⟩
  | memory => exact .inr ⟨rfl, h.takeDown rfl rfl⟩
  | track heap room name v =>
    cases hv : heap.capture room v with
    | error f =>
      have hrecording : recording (.track heap room name v) = .error f := by
        simp [recording, hv, bind, Except.bind]
      exact .inl ⟨f, by simp [captured, hv, Except.map], takeDown_error hrecording⟩
    | ok x =>
      have hrecording : recording (.track heap room name v) = .ok (·.capture name x) := by
        simp [recording, hv, bind, Except.bind, pure, Except.pure]
      have hheard : (Record.after past).capture name x =
          (Record.after past).hears (.track heap room name v) := by
        simp [Record.hears, capture?, hv, Except.toOption]
      exact .inr ⟨by simp [captured, hv, Except.map], h.takeDown hrecording hheard⟩
  | enter heap room name args =>
    cases hv : args.mapM (heap.export_ room) with
    | error f =>
      have hrecording : recording (.enter heap room name args) = .error f := by
        simp [recording, hv, bind, Except.bind]
      exact .inl ⟨f, by simp [captured, hv, Except.map], takeDown_error hrecording⟩
    | ok arguments =>
      have hrecording : recording (.enter heap room name args) =
          .ok (·.enter (frame heap room name args)) := by
        simp [recording, hv, bind, Except.bind, pure, Except.pure, frame, Except.toOption]
      exact .inr ⟨by simp [captured, hv, Except.map], h.takeDown hrecording rfl⟩

/-- A course comes to the same under both, and the engine has recorded what the scribe took down. -/
theorem Recounting.drive {α : Type} {x y : Course α} (hxy : x.Renders y) {cs : List Call}
    (h : s.Recounting cs.reverse) (hplain : ∀ c ∈ (x.drive scribe cs).2, c.Plain) :
    (y.drive host s).1 = (x.drive scribe cs).1 ∧
      (y.drive host s).2.Recounting (x.drive scribe cs).2.reverse := by
  induction x generalizing y cs s with
  | done a w =>
    obtain rfl : y = .done a w := hxy
    exact ⟨rfl, h⟩
  | broke i w =>
    obtain rfl : y = .broke i w := hxy
    exact ⟨rfl, h⟩
  | tell c w next ih =>
    have hc : c.Plain := by
      cases c with
      | console kind m => exact hplain _ ((suffix_drive (next .proceed) _).subset (List.mem_cons_self ..))
      | _ => trivial
    obtain ⟨next', rfl, hnext⟩ := hxy hc
    obtain ⟨f, hcaptured, hhear⟩ | ⟨hcaptured, t, hhear, ht⟩ := h.hear c
    · have hscribe : scribe.reply c cs = (.fault f, cs) := by simp [scribe, hcaptured]
      have hengine : host.reply c.inText s = (.fault f, s) := hhear
      rw [Course.drive_tell, hscribe] at hplain
      rw [Course.drive_tell, Course.drive_tell, hscribe, hengine]
      exact ih _ (hnext _) h hplain
    · have hscribe : scribe.reply c cs = (.proceed, c :: cs) := by simp [scribe, hcaptured]
      have hengine : host.reply c.inText s = (.proceed, t) := hhear
      rw [Course.drive_tell, hscribe] at hplain
      rw [Course.drive_tell, Course.drive_tell, hscribe, hengine]
      exact ih _ (hnext _) (by simpa using ht) hplain

/-! ### The end of a run -/

/-- A run that has come to its end, with the record of some calls and of the errors there were. -/
structure Concluded (s : Session) (past : List Call) (errors : List ErrorRecord) : Prop
    extends s.Undisturbed where
  stopRequested : s.state.stopRequested = false
  record : s.state.record = { Record.after past with errors := errors.reverse }

theorem Recounting.concluded (h : s.Recounting past) : s.Concluded past [] where
  toUndisturbed := h.toUndisturbed
  stopRequested := h.stopRequested
  record := by
    have herrors := (shows_after past).errors
    rw [h.record]
    generalize Record.after past = r at herrors
    cases r
    cases herrors
    rfl

theorem Recounting.fail (h : s.Recounting past) (e : ErrorRecord) :
    (s.fail e).1 = .ok .failed ∧ (s.fail e).2.Concluded past [e] := by
  obtain ⟨t, ht, hstate, hundisturbed⟩ := (h.toUndisturbed.modifyState fun x =>
    { x with record := x.record.addError e }).deliverBusy (.error e)
  have hfail : s.fail e = (.ok .failed, t) := by
    rw [fail_eq, h.meanwhile]
    rw [Session.addError, ht]
    rfl
  rw [hfail]
  refine ⟨rfl, hundisturbed, by rw [hstate]; exact h.stopRequested, ?_⟩
  rw [hstate]
  change s.state.record.addError e = _
  rw [h.record, Record.addError, (shows_after past).errors]
  rfl

/-- An error of the program is laid to the line of its last step. -/
theorem Recounting.failProgram (h : s.Recounting past) (name message : Text) :
    (s.failProgram name message).1 = .ok .failed ∧
      (s.failProgram name message).2.Concluded past [{ name, message, line := lastLine past }] := by
  have hline : s.state.record.lastLine = lastLine past := by
    rw [h.record, (shows_after past).lastLine]
  unfold Session.failProgram
  rw [hline]
  exact h.fail _

/-- What a run comes to whose program ended in some way under the scribe. -/
inductive Concludes (past : List Call) (ending : Ending) : Except RunError Status × Session → Prop
  | told {status : Status} {errors : List ErrorRecord} {s : Session}
      (hends : EndsAs (lastLine past) ending status errors) (hs : s.Concluded past errors) :
      Concludes past ending (.ok status, s)
  | lost {i : Interrupt} {s : Session} (hending : ending = .failed i) :
      Concludes past ending (.error (.ofInterrupt i), s)

theorem Recounting.settle (h : s.Recounting past) (e : Ending) :
    Concludes past e (settle e s) := by
  cases e with
  | finished => exact .told .finished h.concluded
  | uncaught name message =>
    obtain ⟨hstatus, hconcluded⟩ := h.failProgram name message
    have hpair : Session.settle (.uncaught name message) s =
        (.ok .failed, (s.failProgram name message).2) := Prod.ext hstatus rfl
    rw [hpair]
    exact .told (.uncaught name message) hconcluded
  | failed i => exact .lost rfl

/-- An exception describes itself in the same way under both. -/
theorem Recounting.endingOf {p : Program} {i : Interrupt} {w : World} {cs : List Call}
    (h : s.Recounting cs.reverse) (hplain : ∀ c ∈ (endingOf p scribe i w cs).2, c.Plain) :
    (Execution.endingOf p host i w s).1 = (Execution.endingOf p scribe i w cs).1 ∧
      (Execution.endingOf p host i w s).2.Recounting
        (Execution.endingOf p scribe i w cs).2.reverse := by
  cases hd : details p false i w with
  | none =>
    have hd' : details p true i w = none := by
      cases i with
      | thrown v => cases hd
      | raised kind message => cases hd
      | _ => rfl
    rw [endingOf_of_none (k := scribe) hd, endingOf_of_none (k := host) hd']
    exact ⟨rfl, h⟩
  | some x =>
    obtain ⟨y, hy, hxy⟩ := details_renders hd
    rw [endingOf_of_some (k := scribe) hd] at hplain ⊢
    rw [endingOf_of_some (k := host) hy]
    obtain ⟨hresult, hrecounting⟩ := h.drive hxy hplain
    exact ⟨congrArg described hresult, hrecounting⟩

theorem Recounting.conclude {p : Program} {i : Interrupt} {w : World} {cs : List Call}
    (h : s.Recounting cs.reverse)
    (hplain : ∀ c ∈ (Execution.endingOf p scribe i w cs).2, c.Plain) :
    Concludes (Execution.endingOf p scribe i w cs).2.reverse
      (Execution.endingOf p scribe i w cs).1 (conclude p (.broke i w) s) := by
  by_cases hstopped : i = .stopped
  · subst hstopped
    exact .told .stopped h.concluded
  by_cases hdeep : i = .fault .nestingTooDeep
  · subst hdeep
    obtain ⟨hstatus, hconcluded⟩ :=
      h.failProgram "RangeError" "Maximum call stack size exceeded"
    have hpair : Session.conclude p (.broke (.fault .nestingTooDeep) w) s = (.ok .failed,
        (s.failProgram "RangeError" "Maximum call stack size exceeded").2) := Prod.ext hstatus rfl
    rw [hpair]
    exact .told .tooDeep hconcluded
  have hrest : Session.conclude p (.broke i w) s =
      Session.settle (Execution.endingOf p host i w s).1 (Execution.endingOf p host i w s).2 := by
    simp only [Session.conclude]
  obtain ⟨hending, hrecounting⟩ := h.endingOf hplain
  rw [hrest, hending]
  exact hrecounting.settle _

/-- To follow a program comes to what it comes to under the scribe. -/
theorem Recounting.follow {p : Program} (h : s.Recounting []) (hplain : ∀ c ∈ calls p, c.Plain) :
    Concludes (calls p) (ending p) (s.follow p) := by
  have hfollow : s.follow p = Session.conclude p (run p host s).1 (run p host s).2 := rfl
  have hdrive : (∀ c ∈ (run p scribe []).2, c.Plain) → (run p host s).1 = (run p scribe []).1 ∧
      (run p host s).2.Recounting (run p scribe []).2.reverse :=
    Recounting.drive (course_renders p) h
  rw [hfollow]
  unfold calls at hplain ⊢
  unfold ending
  unfold runToEnd at hplain ⊢
  rcases hrun : run p scribe [] with ⟨outcome, cs⟩
  rw [hrun] at hdrive
  simp only [hrun] at hplain ⊢
  cases outcome with
  | done a w =>
    obtain ⟨hresult, hrecounting⟩ := hdrive fun c hc => hplain c (by simpa using hc)
    rw [hresult]
    exact .told .finished hrecounting.concluded
  | broke i w =>
    have hplain' : ∀ c ∈ (Execution.endingOf p scribe i w cs).2, c.Plain :=
      fun c hc => hplain c (by simpa using hc)
    obtain ⟨hresult, hrecounting⟩ := hdrive fun c hc =>
      hplain' c ((suffix_endingOf p i w cs).subset hc)
    rw [hresult]
    exact hrecounting.conclude hplain'

/-- The error of a run that nests too deep before its first step. -/
def tooDeep : ErrorRecord :=
  { name := "RangeError", message := "Maximum call stack size exceeded", line := none }

theorem Concluded.release {errors : List ErrorRecord} (h : s.Concluded past errors)
    (status : Status) : (Session.release (.ok status) s).1 =
      .ok ({ Record.after past with errors := errors.reverse }.trace status) := by
  have hstatus : s.state.finalStatus status = status := by
    simp [State.finalStatus, h.stopRequested]
  have hfinished := h.toUndisturbed.modifyState (·.finish status)
  simp only [Session.release, h.toUndisturbed.meanwhile, hfinished.meanwhile]
  change Except.ok (s.state.record.trace (s.state.finalStatus status)) = _
  rw [hstatus, h.record]

/-- What a run of a program gives: the trace of its calls, unless nobody can say how it ended. -/
def Retold (p : Program) (result : Except RunError Trace) : Prop :=
  (∃ t, result = .ok t ∧ t.Recounts (calls p) (ending p)) ∨
    ∃ i, ending p = .failed i ∧ result = .error (.ofInterrupt i)

theorem Concludes.release {p : Program} {x : Except RunError Status × Session}
    (h : Concludes (calls p) (ending p) x) : Retold p (Session.release x.1 x.2).1 := by
  cases h with
  | told hends hs => exact .inl ⟨_, hs.release _, recounts_after hends⟩
  | lost hending => exact .inr ⟨_, hending, rfl⟩

theorem Undisturbed.recounting (h : s.Undisturbed) (hstop : s.state.stopRequested = false)
    {o : Options} (ho : o.Idle) :
    ((s.meanwhile.modifyState (·.start o.maxSteps)).engage o.observers).Recounting [] where
  others := by rw [h.meanwhile]; exact h.others
  observers x hx := by
    rw [h.meanwhile] at hx
    rcases Array.mem_append.mp hx with hx | hx
    · exact h.observers x hx
    · exact ho.observers x (by simpa using hx)
  running := by rw [h.meanwhile]; simp [Session.engage, Session.modifyState, State.start, hstop]
  paused := rfl
  stopRequested := by rw [h.meanwhile]; exact hstop
  maxSteps := ho.maxSteps
  record := rfl

theorem Undisturbed.runClaimed (h : s.Undisturbed) (hstop : s.state.stopRequested = false)
    {o : Options} (ho : o.Idle) {p : Program} (hplain : ∀ c ∈ calls p, c.Plain) :
    Retold p (s.runClaimed (.ok p) o).1 :=
  ((h.recounting hstop ho).follow hplain).release

/-- An engine that is free is claimed, if the options make sense. -/
theorem Undisturbed.claimed (h : s.Undisturbed) (hfree : s.state.busy = false) {o : Options}
    (ho : o.Idle) {p : Program} (hplain : ∀ c ∈ calls p, c.Plain) :
    o.speed <= 0 ∧ (s.claimed o (Session.runClaimed (.ok p) o)).1 = .error (.badSpeed o.speed) ∨
      Retold p (s.claimed o (Session.runClaimed (.ok p) o)).1 := by
  have hclaim : s.state.claim? = some { s.state with busy := true, stopRequested := false } := by
    simp [State.claim?, hfree]
  have hclaimed : ({ s with state := { s.state with busy := true, stopRequested := false } } :
      Session).Undisturbed := ⟨h.others, h.observers⟩
  have hruns := hclaimed.runClaimed rfl ho hplain
  unfold Session.claimed
  rw [hclaim]
  split
  · next hspeed => exact .inl ⟨hspeed, rfl⟩
  · exact .inr hruns

end Session

end Stepper.Engine
