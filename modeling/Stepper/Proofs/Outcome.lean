import Stepper.Proofs.Delivery
import Stepper.Proofs.Limit

/-!
Outcome and records agree. Whichever way a run ends, its trace says what the engine says. It has an
error where the run failed and there alone, it is complete only if the program came to its end and
nobody stopped it, its steps are numbered in their order within the limit, and it holds what was
delivered, no more and no less. A source that cannot be read is told of once, and nothing else is.
-/
namespace Stepper.Engine

open Execution Machine Syntax

/-- Steps are numbered from one in their order, and none goes past the limit. -/
structure State.Numbered (s : State) : Prop where
  numbers : s.record.steps.reverse.map (·.number) = List.range' 1 s.record.count
  limit : ∀ n, s.maxSteps = some n → ∀ r ∈ s.record.steps, (r.number : Int) ≤ n

namespace State

variable {s t : State}

theorem numbered_start (s : State) (maxSteps : Option Int) : (s.start maxSteps).Numbered :=
  ⟨rfl, fun _ _ r hr => by cases hr⟩

theorem Numbered.of_record (h : s.Numbered) (hmax : t.maxSteps = s.maxSteps)
    (hsteps : t.record.steps = s.record.steps) (hcount : t.record.count = s.record.count) :
    t.Numbered :=
  ⟨by rw [hsteps, hcount, h.numbers], by rw [hmax, hsteps]; exact h.limit⟩

theorem Numbered.apply (h : s.Numbered) (c : Control) : (s.apply c).Numbered :=
  h.of_record (maxSteps_apply s c) (congrArg Record.steps (record_apply s c))
    (congrArg Record.count (record_apply s c))

/-- What passes the gate has the next number, which the limit allows. -/
theorem Numbered.pass (h : s.Numbered) (id line : Int) : (s.pass id line).2.Numbered := by
  obtain ⟨-, hpass⟩ | ⟨-, -, hpass⟩ | ⟨-, hroom, hpass⟩ := s.pass_cases id line <;> rw [hpass]
  · exact h
  · exact h.of_record rfl rfl rfl
  · refine ⟨?_, fun n hn r hr => ?_⟩
    · simp [h.numbers, Record.nextStep, List.range'_1_concat, Nat.add_comm 1]
    · rcases List.mem_cons.mp hr with rfl | hr
      · have hlt : ¬ n ≤ (s.record.count : Int) := by
          have hn : s.maxSteps = some n := hn
          simpa [atLimit, hn] using hroom
        change ((s.record.count + 1 : Nat) : Int) ≤ n
        omega
      · exact h.limit n hn r hr

theorem isEnd_finalStatus {outcome : Status} (h : outcome.IsEnd) (s : State) :
    (s.finalStatus outcome).IsEnd := by
  unfold finalStatus
  split
  · exact .inr (.inr rfl)
  · exact h

/-- A stop takes nothing from a failure. -/
theorem finalStatus_eq_failed {outcome : Status} :
    s.finalStatus outcome = .failed ↔ outcome = .failed := by
  unfold finalStatus
  split
  · next h => simp [h.1]
  · exact .rfl

theorem finalStatus_eq_completed {outcome : Status} :
    s.finalStatus outcome = .completed ↔ outcome = .completed ∧ s.stopRequested = false := by
  unfold finalStatus
  split
  · next h => simp [h.2]
  · next h => simp_all

end State

namespace Session

variable {s t u : Session}

theorem Act.numbered (h : Act s t) (hs : s.state.Numbered) : t.state.Numbered := by
  cases h with
  | aside hstate hlog => exact hstate ▸ hs
  | control c => exact hs.apply c
  | wake c => exact hs.apply c
  | remark he => exact hs
  | hear who n hn => exact hs
  | pass id line hfree => exact hs.pass id line
  | record hf => exact hs.of_record rfl (hf.steps _) (hf.count _)

theorem Deeds.numbered (h : Deeds s t) (hs : s.state.Numbered) : t.state.Numbered := by
  induction h with
  | refl => exact hs
  | tail h hd ih =>
    rcases hd with hd | ⟨e, rfl⟩
    · exact hd.numbered ih
    · exact ih.of_record rfl rfl rfl

theorem Deeds.maxSteps (h : Deeds s t) : t.state.maxSteps = s.state.maxSteps := by
  induction h with
  | refl => rfl
  | tail h hd ih =>
    rcases hd with hd | ⟨e, rfl⟩
    · exact hd.maxSteps.trans ih
    · exact ih

/-- A run that has failed has one error, and any other has none. -/
theorem Follows.errors {status : Status} (h : Follows s (.ok status) t)
    (hs : s.state.record.errors = []) :
    (status = .failed → ∃ e, t.state.record.errors = [e]) ∧
      (status ≠ .failed → t.state.record.errors = []) := by
  cases h with
  | ended h hstatus =>
    refine ⟨fun hfailed => ?_, fun _ => h.errors.trans hs⟩
    rcases hstatus with rfl | rfl <;> cases hfailed
  | @failed m _ e h h' =>
    refine ⟨fun _ => ⟨e, ?_⟩, fun hne => absurd rfl hne⟩
    have herrors : t.state.record.errors = e :: m.state.record.errors := h'.errors
    rw [herrors, h.errors, hs]

/-- What a run of `p` can come to in `s`. It is complete only if the program came to its end. -/
inductive Results (p : Except SyntaxFault Program) (s : Session) :
    Except RunError Status → Prop where
  | completed {q : Program} {w : World} (hp : p = .ok q) (hrun : (run q host s).1 = .done () w) :
      Results p s (.ok .completed)
  | stopped : Results p s (.ok .stopped)
  | failed : Results p s (.ok .failed)
  | lost (i : Interrupt) : Results p s (.error (.ofInterrupt i))

variable {p : Except SyntaxFault Program} {o : Options}

/-- Observers that fail break a run off as an interrupt would. -/
theorem results_fail (e : ErrorRecord) (t : Session) : Results p s (t.fail e).1 := by
  rw [fail_eq]
  rcases (t.meanwhile.addError e).deliverBusy (.error e) with ⟨_ | _, u⟩
  · exact .lost .refused
  · exact .failed

theorem results_endingOf (q : Program) (i : Interrupt) (w : World) (t : Session) :
    Results p s (settle (endingOf q host i w t).1 (endingOf q host i w t).2).1 := by
  unfold endingOf
  cases details q host.wantsText i w with
  | none => exact .lost i
  | some x =>
    rcases hd : x.drive host t with ⟨⟨name, message⟩, v⟩ | ⟨i, v⟩
    · simp only [hd]
      exact results_fail _ _
    · simp only [hd]
      exact .lost i

theorem results_followRead (p : Except SyntaxFault Program) (s : Session) :
    Results p s (followRead p s).1 := by
  cases p with
  | error f => exact results_fail _ s
  | ok q =>
    have hfollow : followRead (.ok q) s = conclude q (run q host s).1 (run q host s).2 := rfl
    rw [hfollow]
    cases hrun : (run q host s).1 with
    | done a w => exact .completed rfl hrun
    | broke i w =>
      by_cases hstopped : i = .stopped
      · subst hstopped
        exact .stopped
      by_cases hdeep : i = .fault .nestingTooDeep
      · subst hdeep
        exact results_fail _ _
      have hrest (t : Session) : conclude q (.broke i w) t =
          settle (endingOf q host i w t).1 (endingOf q host i w t).2 := by
        simp only [conclude]
      rw [hrest]
      exact results_endingOf q i w _

theorem done_of_completed (h : (followRead p s).1 = .ok .completed) :
    ∃ q w, p = .ok q ∧ (run q host s).1 = .done () w := by
  have hresults := results_followRead p s
  rw [h] at hresults
  cases hresults with
  | completed hp hrun => exact ⟨_, _, hp, hrun⟩

/-- A source that is run has been read; if it could not be, that is an error of the run. -/
theorem runClaimed_ne_unreadable (f : SyntaxFault) :
    (s.runClaimed p o).1 ≠ .error (.unreadable f) := by
  have hresults := results_followRead p (s.begun o)
  rw [runClaimed_eq]
  cases h : (followRead p (s.begun o)).1 with
  | ok status => simp
  | error e =>
    rw [h] at hresults
    cases hresults with
    | lost i => cases i <;> simp [RunError.ofInterrupt]

theorem Deeds.log_suffix (h : Deeds s t) : s.log <:+ t.log := by
  induction h with
  | refl => exact List.suffix_rfl
  | tail h hd ih =>
    rcases hd.log with hlog | ⟨e, hlog, -⟩
    · exact hlog ▸ ih
    · exact hlog ▸ ih.trans (List.suffix_cons e _)

section

variable (p : Except SyntaxFault Program) (o : Options)

theorem log_begun (s : Session) : s.log <:+ (s.begun o).log :=
  (acts_surroundings.meanwhile s).deeds.log_suffix

/-- Whenever a run is stopped, be it before it has begun, the engine knows of that when it ends. -/
theorem stopRequested_pursued (hs : s.state.busy = true) {later earlier : List Entry} {e : Entry}
    {after : Reading} (hlog : (s.pursued p o).log = later ++ e :: earlier)
    (hnew : s.log.length ≤ earlier.length) (he : e.ShowsStop after) :
    (s.pursued p o).state.stopRequested = true := by
  have hdeeds := deeds_pursued p o s
  by_cases hwhen : (s.begun o).log.length ≤ earlier.length
  · obtain ⟨u, v, hu, huv, hv, hulog, hvlog⟩ := hdeeds.moment hlog hwhen
    obtain ⟨hstate, -⟩ := huv.state_of_showsStop hulog hvlog he
    have hbusy : u.state.busy = true := hu.busy.trans (underway_begun o hs).busy
    exact hv.stopRequested (hstate ▸ State.stopRequested_stop hbusy)
  · have hsuffix : e :: earlier <:+ (s.begun o).log :=
      List.suffix_of_suffix_length_le ⟨later, hlog.symm⟩ hdeeds.log_suffix
        (by simp only [List.length_cons]; omega)
    obtain ⟨middle, hmiddle⟩ := hsuffix
    exact hdeeds.stopRequested (stopRequested_begun hs hmiddle.symm hnew he)

/-- How the trace of a run of `p`, on an engine that was claimed in `s`, agrees with the program and
with the session `u` that the run has left. -/
structure Accounts (p : Except SyntaxFault Program) (o : Options) (s : Session) (t : Trace)
    (u : Session) : Prop where
  isEnd : t.status.IsEnd
  status : u.state.status = t.status
  failed : t.status = .failed → ∃ e, t.errors = [e]
  unfailed : t.status ≠ .failed → t.errors = []
  /-- The program ran to its end. -/
  done : t.status = .completed → ∃ q w, p = .ok q ∧ (run q host (s.begun o)).1 = .done () w
  /-- Nobody stopped the run between its claim and its release. -/
  unstopped : t.status = .completed → ∃ new, (s.pursued p o).log = new ++ s.log ∧
    ∀ e ∈ new, ∀ after, ¬ e.ShowsStop after
  numbers : t.steps.map (·.number) = List.range' 1 u.state.record.count
  limit : ∀ n, o.maxSteps = some n → ∀ r ∈ t.steps, (r.number : Int) ≤ n
  /-- What was heard in the run is what the trace holds, told to everybody who listens. -/
  delivered : ∃ ns, u.hearings = s.hearings ++ (s.engage o.observers).told ns ∧
    ns.filterMap Notice.step? = t.steps ∧ ns.filterMap Notice.console? = t.console ∧
    ns.filterMap Notice.error? = t.errors

/-- A run begins with the observers that it was given, and tells nothing yet. -/
theorem cast_begun (s : Session) : (s.begun o).cast = (s.engage o.observers).cast := by
  obtain ⟨_, _, _, h⟩ := s.meanwhile_eq
  simp only [begun, h]
  rfl

theorem hearings_meanwhile (s : Session) : s.meanwhile.hearings = s.hearings := by
  rw [(tells_meanwhile s).hearings, List.append_nil]

theorem hearings_begun (s : Session) : (s.begun o).hearings = s.hearings := hearings_meanwhile s

/-- Those who listen in a run are the lasting observers and its own. -/
theorem calm_engage (h : ∀ i ∈ s.lasting, s.CalmAt i) {os : List Observer}
    (hos : ∀ y ∈ os, y.Calm) : (s.engage os).Calm := by
  intro i hi y hy
  simp only [Session.engage, Array.getElem?_append] at hy
  split at hy
  · next hlt =>
    rcases List.mem_append.mp hi with hi | hi
    · exact h i hi y hy
    · have hle : s.observers.size ≤ i := (List.mem_range'_1.mp hi).1
      omega
  · exact hos y (by simpa using Array.mem_of_getElem? hy)

/-- A run tells everybody what it records, from its claim to its release. -/
theorem delivered_pursued (h : ∀ i ∈ s.lasting, s.CalmAt i) (ho : ∀ y ∈ o.observers, y.Calm) :
    ∃ ns, (s.pursued p o).hearings = s.hearings ++ (s.engage o.observers).told ns ∧
      (s.pursued p o).state.record.steps.reverse = ns.filterMap Notice.step? ∧
      (s.pursued p o).state.record.console.reverse = ns.filterMap Notice.console? ∧
      (s.pursued p o).state.record.errors.reverse = ns.filterMap Notice.error? := by
  have hcalm : (s.begun o).Calm := (calm_engage h ho).of_cast (cast_begun o s)
  obtain ⟨ns, hns⟩ := (hcalm.followRead p).trans (tells_meanwhile _).delivering
  have hheard := hns.hearings
  rw [hearings_begun, told_of_cast (cast_begun o s)] at hheard
  have hempty : (s.begun o).state.record = {} := rfl
  refine ⟨ns, hheard, ?_, ?_, ?_⟩
  · rw [pursued, hns.steps, hempty, List.append_nil, List.reverse_reverse]
  · rw [pursued, hns.console, hempty, List.append_nil, List.reverse_reverse]
  · rw [pursued, hns.errors, hempty, List.append_nil, List.reverse_reverse]

end

/-- However a run ends that gives a trace, its outcome and its records agree. -/
theorem accounts_runClaimed (hbusy : s.state.busy = true) (h : ∀ i ∈ s.lasting, s.CalmAt i)
    (ho : ∀ y ∈ o.observers, y.Calm) {t : Trace} (ht : (s.runClaimed p o).1 = .ok t) :
    Accounts p o s t (s.runClaimed p o).2 := by
  have hfollows := follows_followRead p (s.begun o)
  have hdeeds := deeds_pursued p o s
  obtain ⟨ns, hheard, hsteps, hconsole, herrors⟩ := delivered_pursued p o h ho
  rw [runClaimed_eq] at ht ⊢
  cases hstatus : (followRead p (s.begun o)).1 with
  | error e => simp [hstatus] at ht
  | ok status =>
    rw [hstatus] at ht hfollows
    cases ht
    have hreleased := state_meanwhile (s := (s.pursued p o).modifyState (·.finish status))
      fun c => State.apply_finish _ _ c
    have hnumbered : (s.pursued p o).state.Numbered :=
      hdeeds.numbered (State.numbered_start _ o.maxSteps)
    have hfinish := (acts_surroundings.meanwhile (followRead p (s.begun o)).2).errors
    obtain ⟨hfailed, hunfailed⟩ := hfollows.errors rfl
    rw [← hfinish] at hfailed hunfailed
    exact {
      isEnd := State.isEnd_finalStatus hfollows.isEnd _
      status := by rw [hreleased]; rfl
      failed := fun hf => by
        obtain ⟨e, he⟩ := hfailed (State.finalStatus_eq_failed.mp hf)
        exact ⟨e, congrArg List.reverse he⟩
      unfailed := fun hf =>
        congrArg List.reverse (hunfailed fun hs => hf (State.finalStatus_eq_failed.mpr hs))
      done := fun hc => done_of_completed (hstatus.trans
        (congrArg Except.ok (State.finalStatus_eq_completed.mp hc).1))
      unstopped := fun hc => by
        obtain ⟨new, hnew⟩ := (log_begun o s).trans hdeeds.log_suffix
        refine ⟨new, hnew.symm, fun e he after hstop => ?_⟩
        obtain ⟨later, earlier, rfl⟩ := List.append_of_mem he
        have hlog : (s.pursued p o).log = later ++ e :: (earlier ++ s.log) := by
          simpa using hnew.symm
        have hrequested := stopRequested_pursued p o hbusy hlog (by simp) hstop
        rw [(State.finalStatus_eq_completed.mp hc).2] at hrequested
        cases hrequested
      numbers := by
        rw [hreleased]
        exact hnumbered.numbers
      limit := fun n hn r hr =>
        hnumbered.limit n (hdeeds.maxSteps.trans hn) r (List.mem_reverse.mp hr)
      delivered := ⟨ns, (hearings_meanwhile _).trans hheard, hsteps.symm, hconsole.symm,
        herrors.symm⟩ }

/-- What a request has left in `u` that came in `s` and was for a source which cannot be read. -/
structure Rejects (f : SyntaxFault) (o : Options) (s u : Session) : Prop where
  status : u.state.status = .failed
  /-- One error was told, and nothing else. -/
  hearings : u.hearings = s.hearings ++ (s.engage o.observers).told [.error (.ofFault f)]
  record : u.state.record = ({} : Record).addError (.ofFault f)

/-- The engine is free when observers hear of the error, so they cannot steer it. -/
theorem rejects_rejectClaimed (hs : s.state.Settled) (h : ∀ i ∈ s.lasting, s.CalmAt i)
    (ho : ∀ y ∈ o.observers, y.Calm) (f : SyntaxFault) : (s.rejectClaimed f o).1 = .error (.unreadable f) ∧
      Rejects f o s (s.rejectClaimed f o).2 := by
  have hnow := tells_meanwhile s
  have hsettled : s.meanwhile.state.Settled := hnow.steered.settled hs
  let x := s.meanwhile.state.reject o.maxSteps (.ofFault f)
  have hcast : ({ s.meanwhile with state := x }.engage o.observers).cast =
      (s.engage o.observers).cast := cast_begun o s
  obtain ⟨t, ht, htells⟩ :=
    ((calm_engage h ho).of_cast hcast).deliver launch (.error (.ofFault f))
  have hstate : t.state = x :=
    htells.steered.eq_of_lost (State.AtRest.apply_of_free ⟨hsettled.running, rfl⟩ rfl)
  have hend : s.rejectClaimed f o = (.error (.unreadable f), t) := by
    rw [rejectClaimed_eq]
    exact congrArg (rejected f) ht
  rw [hend]
  refine ⟨rfl, by rw [hstate]; rfl, ?_, by rw [hstate]; rfl⟩
  rw [htells.hearings, told_of_cast hcast]
  exact congrArg (· ++ _) (hearings_meanwhile s)

end Session

open Session

/-- The outcome of a run agrees with its records, whatever was done with the engine before, if those
who listen ask for nothing but controls. -/
theorem outcome_agrees {x : Shared} (hx : Shared.Moves {} x) {s : Session} (hs : s.state = x.state)
    (hcalm : ∀ i ∈ s.lasting, s.CalmAt i) {o : Options} (ho : ∀ y ∈ o.observers, y.Calm) (source : String) :
    ((∀ t, (s.executeDecorated source o).1 = .ok t →
        Accounts (read source) o s.claim t (s.executeDecorated source o).2) ∧
      ∀ f, (s.executeDecorated source o).1 ≠ .error (.unreadable f)) ∧
    (∀ t, (s.execute source o).1 = .ok t →
      ∃ p text, read source = .ok p ∧ Instrument.decorate "" p = .ok text ∧
        Accounts (read text) o s.claim t (s.execute source o).2) ∧
    ∀ f, ((s.execute source o).1 = .error (.unreadable f) ↔
        ¬ o.speed <= 0 ∧ s.state.busy = false ∧ read source = .error f) ∧
      ((s.execute source o).1 = .error (.unreadable f) → Rejects f o s (s.execute source o).2) := by
  have hclaimed : ∀ i ∈ s.claim.lasting, s.claim.CalmAt i := hcalm
  constructor
  · unfold executeDecorated
    obtain ⟨-, hrun⟩ | ⟨-, -, hrun⟩ | ⟨-, -, hrun⟩ :=
      claimed_cases o s (runClaimed (read source) o) <;> rw [hrun]
    · exact ⟨fun t ht => by simp at ht, fun f hf => by simp at hf⟩
    · exact ⟨fun t ht => by simp at ht, fun f hf => by simp at hf⟩
    · exact ⟨fun t ht => accounts_runClaimed rfl hclaimed ho ht, runClaimed_ne_unreadable⟩
  · rw [execute_eq]
    obtain ⟨hspeed, hrun⟩ | ⟨-, hbusy, hrun⟩ | ⟨hspeed, hfree, hrun⟩ :=
      claimed_cases o s (executeClaimed source o) <;> rw [hrun]
    · exact ⟨fun t ht => by simp at ht, fun f => by simp [hspeed]⟩
    · exact ⟨fun t ht => by simp at ht, fun f => by simp [hbusy]⟩
    · have hsettled : s.state.Settled := hs ▸ (hx.sound Shared.sound_new).settled (hs ▸ hfree)
      unfold executeClaimed
      cases hread : read source with
      | error g =>
        obtain ⟨hresult, hrejects⟩ := rejects_rejectClaimed (s := s.claim) (o := o)
          (hsettled.claims true false) hclaimed ho g
        simp only [hresult]
        refine ⟨fun t ht => by simp at ht, fun f => ⟨?_, fun hf => ?_⟩⟩
        · simp [hspeed, hfree]
        · cases hf
          exact ⟨hrejects.status, hrejects.hearings, hrejects.record⟩
      | ok p =>
        dsimp only
        cases hdecorate : Instrument.decorate "" p with
        | error e =>
          exact ⟨fun t ht => by simp [abandonClaimed] at ht, fun f => by simp [abandonClaimed]⟩
        | ok text =>
          refine ⟨fun t ht => ⟨p, text, rfl, hdecorate, accounts_runClaimed rfl hclaimed ho ht⟩,
            fun f => ?_⟩
          have hne := runClaimed_ne_unreadable (s := s.claim) (o := o) (p := read text) f
          exact ⟨⟨fun h => absurd h hne, fun h => by simp at h⟩, fun h => absurd h hne⟩

/-- Stops a run at its second step. -/
def brake : Observer where
  name := "brake"
  channel := .step
  answer n := if n = 2 then [.control .stop] else []

/-- An engine that has been used, with an observer that pauses it; others resume it. -/
def attended : Session where
  state := leftover.state
  observers := #[pauser]
  lasting := [0]
  wakes := [.resume]

theorem calm_attended : ∀ i ∈ attended.lasting, attended.CalmAt i := by
  intro i hi o ho n r hr
  obtain rfl : i = 0 := by simpa [attended] using hi
  obtain rfl : pauser = o := by simpa [attended] using ho
  by_cases hn : n = 1
  · obtain rfl : r = .control .pause := by simpa [pauser, hn] using hr
    rfl
  · simp [pauser, hn] at hr

theorem calm_brake : brake.Calm := by
  intro n r hr
  by_cases hn : n = 2
  · obtain rfl : r = .control .stop := by simpa [brake, hn] using hr
    rfl
  · simp [brake, hn] at hr

theorem attended_agrees :
    Shared.Moves {} leftover ∧ attended.state = leftover.state ∧
      (∀ i ∈ attended.lasting, attended.CalmAt i) ∧
      (∀ y ∈ [brake], y.Calm) ∧
      ∀ t, (attended.executeDecorated "__step(0, 1); __step(1, 2);" { observers := [brake] }).1 =
          .ok t →
        Accounts (read "__step(0, 1); __step(1, 2);") { observers := [brake] } attended.claim t
          (attended.executeDecorated "__step(0, 1); __step(1, 2);" { observers := [brake] }).2 :=
  have hbrake : ∀ y ∈ [brake], y.Calm := by simpa using calm_brake
  ⟨moves_leftover, rfl, calm_attended, hbrake,
    (outcome_agrees moves_leftover rfl calm_attended hbrake "__step(0, 1); __step(1, 2);").1.1⟩

end Stepper.Engine
