import Stepper.Proofs.Stopping

/-!
A limit on steps only truncates. Two runs of one program in one session, with observers and others
who do the same, differ in nothing but their limits until the lower limit is met: nobody reads the
limit but the gate. There the one run is stopped, which the program heeds, and the other goes on
and records a further step. What a run records is only added to, so in the end the records of the
one are the first of the other.
-/
namespace Stepper.Engine

open Execution Machine Syntax

namespace State

/-- A state with another limit. -/
def limited (k : Option Int) (s : State) : State := { s with maxSteps := k }

variable (k : Option Int) (s : State)

@[simp] theorem record_limited : (s.limited k).record = s.record := rfl
@[simp] theorem running_limited : (s.limited k).running = s.running := rfl
@[simp] theorem reading_limited : (s.limited k).reading = s.reading := rfl
@[simp] theorem isHeld_limited : (s.limited k).isHeld = s.isHeld := rfl

@[simp] theorem apply_limited (c : Control) : (s.limited k).apply c = (s.apply c).limited k := by
  cases c <;> simp only [apply, pause, resume, stop, stepForward, apply_ite (limited k)] <;> rfl

@[simp] theorem maxSteps_apply (c : Control) : (s.apply c).maxSteps = s.maxSteps := by
  cases c <;> simp only [apply, pause, resume, stop, stepForward] <;> split <;> rfl

end State

namespace Session

/-- A session whose engine has another limit. -/
def limited (k : Option Int) (s : Session) : Session := s.modifyState (·.limited k)

variable {s t : Session} (k : Option Int)

@[simp] theorem state_limited (s : Session) : (s.limited k).state = s.state.limited k := rfl

/-! ### Those who do not read the limit -/

@[simp] theorem note_limited (s : Session) (e : Entry) :
    (s.limited k).note e = (s.note e).limited k := rfl

@[simp] theorem control_limited (s : Session) (c : Control) :
    (s.limited k).control c = (s.control c).limited k := by
  simp [control, limited, modifyState]

@[simp] theorem wake_limited (s : Session) (c : Control) :
    (s.limited k).wake c = (s.wake c).limited k := by
  simp [wake]

theorem foldl_wake_limited (s : Session) (cs : List Control) :
    cs.foldl wake (s.limited k) = (cs.foldl wake s).limited k := by
  induction cs generalizing s with
  | nil => rfl
  | cons c cs ih => simp [ih]

@[simp] theorem meanwhile_limited (s : Session) :
    (s.limited k).meanwhile = s.meanwhile.limited k := by
  have hothers : (s.limited k).others = s.others := rfl
  unfold meanwhile
  rw [hothers]
  cases s.others with
  | nil => rfl
  | cons cs others => exact foldl_wake_limited k { s with others } cs

theorem await_limited (s : Session) (wakes : List Control) :
    (s.limited k).await wakes = (s.await wakes).limited k := by
  induction wakes generalizing s with
  | nil =>
    unfold await
    cases hheld : s.state.isHeld with
    | false => simp [hheld]; rfl
    | true => simp [hheld]; rfl
  | cons c wakes ih =>
    unfold await
    cases hheld : s.state.isHeld with
    | false => simp [hheld]; rfl
    | true => simp [hheld, ih]

/-- The result of an act in a session with another limit. -/
def relimit {α : Type} (k : Option Int) (x : α × Session) : α × Session := (x.1, x.2.limited k)

@[simp] theorem reply_relimit (x : Bool × Session) : reply (relimit k x) = relimit k (reply x) := by
  rcases x with ⟨_ | _, s⟩ <;> rfl

theorem serve_limited (rs : List Request) (s : Session) :
    serve (fun _ s => s) rs (s.limited k) = relimit k (serve (fun _ s => s) rs s) := by
  induction rs generalizing s with
  | nil => rfl
  | cons r rs ih =>
    cases r with
    | control c => simp [serve, ih]
    | launch l p =>
      have hbusy : (s.limited k).state.busy = s.state.busy := rfl
      unfold serve
      rw [hbusy]
      split
      · simp [ih]
      · simp [ih]
    | fail => rfl

theorem tell_limited (n : Notice) (i : Nat) (s : Session) :
    tell (fun _ s => s) n i (s.limited k) = relimit k (tell (fun _ s => s) n i s) := by
  have hobservers : (s.limited k).observers = s.observers := rfl
  unfold tell
  rw [hobservers]
  cases s.observers[i]? with
  | none => rfl
  | some o =>
    exact serve_limited k _ (Session.note { s with
      observers := s.observers.modify i fun o => { o with heard := o.heard + 1 } } _)

theorem tellAll_limited (n : Notice) (is : List Nat) (s : Session) :
    tellAll (fun _ s => s) n is (s.limited k) = relimit k (tellAll (fun _ s => s) n is s) := by
  induction is generalizing s with
  | nil => rfl
  | cons i is ih =>
    unfold tellAll
    rw [meanwhile_limited, tell_limited]
    rcases tell (fun _ s => s) n i s.meanwhile with ⟨b, t⟩
    cases b with
    | true => exact ih t
    | false => rfl

@[simp] theorem deliverBusy_limited (n : Notice) (s : Session) :
    (s.limited k).deliverBusy n = relimit k (s.deliverBusy n) := tellAll_limited k n _ s

theorem write_limited (kind : ConsoleKind) (message : Text) (s : Session) :
    (s.limited k).write kind message = relimit k (s.write kind message) := by
  have hwrite : ((s.limited k).modifyState fun e =>
        { e with record := e.record.write ⟨kind, message⟩ }) =
      (s.modifyState fun e => { e with record := e.record.write ⟨kind, message⟩ }).limited k := rfl
  simp only [write]
  rw [hwrite, deliverBusy_limited, reply_relimit]

theorem takeDown_limited (c : Call) (s : Session) :
    (s.limited k).takeDown c = relimit k (s.takeDown c) := by
  unfold takeDown
  cases recording c with
  | ok f => rfl
  | error f => rfl

theorem fail_limited (e : ErrorRecord) (s : Session) :
    (s.limited k).fail e = relimit k (s.fail e) := by
  have herror : ((s.limited k).meanwhile.addError e) = (s.meanwhile.addError e).limited k := by
    simp only [meanwhile_limited]
    rfl
  rw [fail_eq, fail_eq, herror, deliverBusy_limited]
  rcases (s.meanwhile.addError e).deliverBusy (.error e) with ⟨_ | _, t⟩ <;> rfl

/-! ### The gate -/

/-- A run that has not gone past its limit of `j` steps. -/
structure Within (j : Nat) (s : Session) : Prop where
  limit : s.state.maxSteps = some (j : Int)
  count : s.state.record.count ≤ j
  underway : s.state.Underway

/-- A run that was ended by its limit of `j` steps, beside the same run with a step more. -/
structure Cut (j : Nat) (s t : Session) : Prop where
  full : j ≤ s.state.record.count
  grows : s.Grows t
  longer : s.state.record.steps.length < t.state.record.steps.length

variable {j : Nat} {k : Option Int}

theorem Cut.extend {u : Session} (h : Cut j s t) (ht : t.Grows u) : Cut j s u :=
  ⟨h.full, h.grows.trans ht, Nat.lt_of_lt_of_le h.longer ht.steps.length_le⟩

theorem Act.maxSteps (h : Act s t) : t.state.maxSteps = s.state.maxSteps := by
  cases h with
  | aside hstate hlog => rw [hstate]
  | control c => exact State.maxSteps_apply s.state c
  | wake c => exact State.maxSteps_apply s.state c
  | remark he => rfl
  | hear who n hn => rfl
  | pass id line hfree =>
    obtain ⟨-, hpass⟩ | ⟨-, -, hpass⟩ | ⟨-, -, hpass⟩ := s.state.pass_cases id line <;> rw [hpass]
  | record hf => rfl

theorem Within.act (hs : s.Within j) (h : Act s t) : t.Within j := by
  refine ⟨h.maxSteps.trans hs.limit, ?_, h.underway hs.underway⟩
  have hcount := hs.count
  cases h with
  | aside hstate hlog => rwa [hstate]
  | control c => exact State.record_apply s.state c ▸ hcount
  | wake c => exact State.record_apply s.state c ▸ hcount
  | remark he => exact hcount
  | hear who n hn => exact hcount
  | pass id line hfree =>
    obtain ⟨-, hpass⟩ | ⟨-, -, hpass⟩ | ⟨-, hroom, hpass⟩ := s.state.pass_cases id line <;>
      rw [hpass]
    · exact hcount
    · exact hcount
    · have hlt : s.state.record.count < j := by
        simpa [State.atLimit, hs.limit] using hroom
      exact hlt
  | record hf => exact Nat.le_trans (Nat.le_of_eq (hf.count _)) hcount

theorem Within.deeds (hs : s.Within j) (h : Deeds s t) : t.Within j := by
  induction h with
  | refl => exact hs
  | tail h hd ih =>
    rcases hd with hd | ⟨e, rfl⟩
    · exact ih.act hd
    · exact ⟨ih.limit, ih.count, ih.underway.busy, ih.underway.stopped, ih.underway.counted⟩

theorem Within.acts (hs : s.Within j) (h : Acts s t) : t.Within j := hs.deeds h.deeds

end Session

/-- What the gate does with two runs that differ in their limits. -/
theorem State.pass_limited {j : Nat} {k : Option Int} (hjk : ∀ n ∈ k, (j : Int) ≤ n) {s : State}
    (hs : s.maxSteps = some (j : Int)) (id line : Int) :
    (s.limited k).pass id line = ((s.pass id line).1, (s.pass id line).2.limited k) ∨
      j ≤ s.record.count ∧ (s.pass id line).1 = false ∧ (s.pass id line).2.record = s.record ∧
        ∃ t, (s.limited k).pass id line = (true, t) := by
  have hlimit : s.atLimit = decide (j ≤ s.record.count) := by simp [atLimit, hs]
  obtain ⟨hrunning, hpass⟩ | ⟨hrunning, hfull, hpass⟩ | ⟨hrunning, hroom, hpass⟩ :=
    s.pass_cases id line
  · refine .inl ?_
    rw [hpass, pass_eq, running_limited, hrunning]
    rfl
  · rw [hpass, pass_eq, running_limited, hrunning]
    cases (s.limited k).atLimit with
    | true => exact .inl rfl
    | false => exact .inr ⟨by simpa [hlimit] using hfull, rfl, rfl, _, rfl⟩
  · have hother : (s.limited k).atLimit = false := by
      have hlt : s.record.count < j := by simpa [hlimit] using hroom
      cases k with
      | none => rfl
      | some n =>
        have hn := hjk n rfl
        exact decide_eq_false (show ¬ n ≤ (s.record.count : Int) by omega)
    refine .inl ?_
    rw [hpass, pass_eq, running_limited, hrunning, hother]
    rfl

namespace Session

variable {s t : Session} {j : Nat} {k : Option Int}

/-- A step that only the lower limit does not let pass. -/
theorem step_limited (hjk : ∀ n ∈ k, (j : Int) ≤ n) (hs : s.Within j) (id line : Int) :
    (s.limited k).step id line = relimit k (s.step id line) ∨
      (s.step id line).1 = .stop ∧
        Cut j (s.step id line).2 ((s.limited k).step id line).2 := by
  have hwakes : (s.limited k).wakes = s.wakes := rfl
  unfold step
  rw [state_limited, State.running_limited, hwakes, await_limited]
  cases s.state.running with
  | false => exact .inl rfl
  | true =>
    simp only [Bool.not_true, Bool.false_eq_true, ↓reduceIte, state_limited, State.record_limited]
    have hm : (s.await s.wakes).Within j := hs.acts (acts_surroundings.await s s.wakes)
    generalize s.await s.wakes = m at hm
    rcases hpass : m.state.pass id line with ⟨b, x⟩
    obtain hsame | ⟨hfull, hverdict, hrecord, y, hother⟩ :=
      State.pass_limited hjk hm.limit id line
    · refine .inl ?_
      rw [hsame, hpass]
      cases b with
      | false => rfl
      | true =>
        have hx : ({ m.limited k with state := x.limited k } : Session) =
          ({ m with state := x } : Session).limited k := rfl
        simp only [hx, deliverBusy_limited, reply_relimit]
    · rw [hpass] at hverdict hrecord
      obtain rfl : b = false := hverdict
      have hx : x.record = m.state.record := hrecord
      have hy : y.record = m.state.record.addStep id line :=
        (State.record_of_pass hother).trans (by rw [State.record_limited])
      rw [hother]
      refine .inr ⟨rfl, ?_⟩
      have hcut : Cut j { m with state := x } { m.limited k with state := y } := by
        refine ⟨?_, ⟨?_, ?_⟩, ?_⟩
        · exact hx ▸ hfull
        · rw [hx, hy]
          exact List.suffix_cons ..
        · rw [hx, hy]
          exact List.suffix_rfl
        · rw [hx, hy]
          exact Nat.lt_succ_self _
      have hdeliver := acts_deliverBusy (s := { m.limited k with state := y })
        (n := .step (m.state.record.nextStep id line))
        fun r hr => Notice.step.inj hr ▸ by simp [hy]
      rw [snd_reply]
      exact hcut.extend hdeliver.deeds.grows

/-- A call that only the lower limit does not let pass. -/
theorem hear_limited (hjk : ∀ n ∈ k, (j : Int) ≤ n) (hs : s.Within j) (c : Call) :
    hear c (s.limited k) = relimit k (hear c s) ∨
      (hear c s).1 = .stop ∧ Cut j (hear c s).2 (hear c (s.limited k)).2 := by
  have hnow : s.meanwhile.Within j := hs.acts (acts_surroundings.meanwhile s)
  simp only [hear, meanwhile_limited]
  cases c with
  | step id line => exact step_limited hjk hnow id line
  | console kind m =>
    cases m with
    | text message => exact .inl (write_limited k kind message _)
    | values h room vs => exact .inl (takeDown_limited k _ _)
  | _ => exact .inl (takeDown_limited k _ _)

/-- At its limit a run is told to stop, and hears it the same way as any other stop. -/
theorem step_of_atLimit (hfull : (s.await s.wakes).state.atLimit = true) (id line : Int) :
    (s.step id line).1 = .stop := by
  unfold step
  cases s.state.running with
  | false => rfl
  | true =>
    obtain ⟨-, hpass⟩ | ⟨-, -, hpass⟩ | ⟨-, hroom, -⟩ :=
      (s.await s.wakes).state.pass_cases id line
    · simp [hpass]
    · simp [hpass]
    · simp [hfull] at hroom

/-! ### Runs -/

/-- Two runs of one course: they come to the same, or the lower limit stops the first. -/
theorem drive_limited {α : Type} (hjk : ∀ n ∈ k, (j : Int) ≤ n) {x : Course α} (hx : x.Heeds)
    (hs : s.Within j) :
    x.drive host (s.limited k) = relimit k (x.drive host s) ∨
      (∃ w, (x.drive host s).1 = .broke .stopped w) ∧
        Cut j (x.drive host s).2 (x.drive host (s.limited k)).2 := by
  induction x generalizing s with
  | done a w => exact .inl rfl
  | broke i w => exact .inl rfl
  | tell c w next ih =>
    rw [Course.drive_tell, Course.drive_tell]
    obtain hsame | ⟨hstop, hcut⟩ := hear_limited hjk hs c
    · have hreply : host.reply c (s.limited k) = relimit k (host.reply c s) := hsame
      rw [hreply]
      exact ih _ (hx.2 _) (hs.acts (acts_hear c s))
    · obtain ⟨v, hv, -⟩ := hx.drive_stop host (Prod.ext hstop rfl)
      rw [Course.drive_tell] at hv
      rw [hv]
      exact .inr ⟨⟨v, rfl⟩, hcut.extend (acts_drive _ _).deeds.grows⟩

/-- What two runs come to, of which the first has the lower limit: to the same, or the limit ends
the first one, or it ends the first one while an exception describes itself. -/
inductive Limits (j : Nat) (k : Option Int) :
    Except RunError Status × Session → Except RunError Status × Session → Prop where
  | same (x : Except RunError Status × Session) : Limits j k x (relimit k x)
  | cut {s t : Session} {outcome : Except RunError Status} (h : Cut j s t) :
      Limits j k (.ok .stopped, s) (outcome, t)
  | lost {s : Session} {e : RunError} {y : Except RunError Status × Session} :
      Limits j k (.error e, s) y

theorem limits_fail (e : ErrorRecord) (s : Session) :
    Limits j k (s.fail e) ((s.limited k).fail e) := by
  rw [fail_limited]
  exact .same _

theorem conclude_limited (hjk : ∀ n ∈ k, (j : Int) ≤ n) (p : Program) (outcome : Outcome Unit)
    (hs : s.Within j) :
    Limits j k (conclude p outcome s) (conclude p outcome (s.limited k)) := by
  cases outcome with
  | done _ _ => exact .same (.ok .completed, s)
  | broke i w =>
    by_cases hstopped : i = .stopped
    · subst hstopped
      exact .same (.ok .stopped, s)
    by_cases hdeep : i = .fault .nestingTooDeep
    · subst hdeep
      exact limits_fail _ s
    have hrest (s : Session) : conclude p (.broke i w) s =
        settle (endingOf p host i w s).1 (endingOf p host i w s).2 := by
      simp only [conclude]
    rw [hrest, hrest]
    unfold endingOf
    cases hdetails : details p host.wantsText i w with
    | none => exact .same (.error (.ofInterrupt i), s)
    | some x =>
      have hx : x.Heeds := details_heeds hdetails
      simp only
      obtain hsame | ⟨⟨v, hv⟩, -⟩ := drive_limited hjk hx hs
      · rw [hsame]
        rcases x.drive host s with ⟨d | ⟨i, v⟩, t⟩
        · exact limits_fail _ t
        · exact .same (.error (.ofInterrupt i), t)
      · rcases hd : x.drive host s with ⟨d, t⟩
        rw [hd] at hv
        obtain rfl : d = .broke .stopped v := hv
        exact .lost

theorem followRead_limited (hjk : ∀ n ∈ k, (j : Int) ≤ n) (p : Except SyntaxFault Program)
    (hs : s.Within j) : Limits j k (followRead p s) (followRead p (s.limited k)) := by
  cases p with
  | error f => exact limits_fail _ s
  | ok p =>
    change Limits j k (conclude p (run p host s).1 (run p host s).2)
      (conclude p (run p host (s.limited k)).1 (run p host (s.limited k)).2)
    have hrun : Acts s (run p host s).2 := acts_drive _ s
    obtain hsame | ⟨⟨w, hw⟩, hcut⟩ := drive_limited hjk (course_heeds p host.wantsText) hs
    · have hsame : run p host (s.limited k) = relimit k (run p host s) := hsame
      rw [hsame]
      generalize run p host s = x at hrun
      exact conclude_limited hjk p x.1 (hs.acts hrun)
    · have hw : (run p host s).1 = .broke .stopped w := hw
      rw [hw]
      exact .cut (hcut.extend (follows_conclude p _ _).deeds.grows)

end Session

/-- The first of two traces is the other one up to `j` steps. -/
structure Trace.Truncates (j : Nat) (t u : Trace) : Prop where
  steps : t.steps = u.steps.take j
  console : t.console <+: u.console
  same : u.steps.length ≤ j → t = u
  stopped : j < u.steps.length → t.steps.length = j ∧ t.status = .stopped ∧ t.errors = []

theorem Trace.truncates_self {j : Nat} {t : Trace} (h : t.steps.length ≤ j) : t.Truncates j t :=
  ⟨(List.take_of_length_le h).symm, List.prefix_rfl, fun _ => rfl, fun hlt => by omega⟩

/-- A limit of `j` steps truncates a result, if both runs give a trace. -/
def Truncates (j : Nat) (x y : Except RunError Trace) : Prop :=
  ∀ t u, x = .ok t → y = .ok u → t.Truncates j u

namespace Session

variable {s : Session} {j : Nat} {k : Option Int}

/-- The record is the run's own. -/
theorem record_surroundings : Surroundings fun s t => t.state.record = s.state.record where
  refl _ := rfl
  trans hst htu := htu.trans hst
  aside _ _ hstate _ := by rw [hstate]
  control s c := State.record_apply s.state c
  wake s c := State.record_apply s.state c
  remark _ _ _ := rfl

/-- What others do between the end of a run and its release leaves the record alone. -/
theorem record_meanwhile (s : Session) : s.meanwhile.state.record = s.state.record :=
  record_surroundings.meanwhile s

theorem record_deliverBusy (n : Notice) (s : Session) :
    (s.deliverBusy n).2.state.record = s.state.record :=
  record_surroundings.deliverBusy (fun _ _ => rfl) s

/-- The records of a run that its limit ended are the first records of the run that went on. -/
theorem Cut.truncates (h : Cut j s t) (hs : s.Within j) (herrors : s.state.record.errors = [])
    (status : Status) :
    (s.state.record.trace .stopped).Truncates j (t.state.record.trace status) := by
  have hcount : s.state.record.steps.length = j := by
    rw [← hs.underway.counted]
    exact Nat.le_antisymm hs.count h.full
  obtain ⟨more, hmore⟩ := h.grows.steps
  have hlonger := h.longer
  refine ⟨?_, List.reverse_prefix.mpr h.grows.console, fun hshort => ?_, fun _ => ?_⟩
  · simp only [Record.trace]
    rw [← hmore, List.reverse_append, List.take_left' (by simpa using hcount)]
  · have hshort : t.state.record.steps.length ≤ j := by simpa [Record.trace] using hshort
    omega
  · exact ⟨by simpa [Record.trace] using hcount, rfl, by simp [Record.trace, herrors]⟩

theorem runClaimed_limited (hjk : ∀ n ∈ k, (j : Int) ≤ n) (p : Except SyntaxFault Program)
    (o : Options) (hbusy : s.state.busy = true) :
    Truncates j (s.runClaimed p { o with maxSteps := some j }).1
      (s.runClaimed p { o with maxSteps := k }).1 := by
  have hwithin : (s.begun { o with maxSteps := some (j : Int) }).Within j :=
    ⟨rfl, Nat.zero_le j, underway_begun _ hbusy⟩
  have hbegun : s.begun { o with maxSteps := k } =
    (s.begun { o with maxSteps := some (j : Int) }).limited k := rfl
  have hclean : (s.begun { o with maxSteps := some (j : Int) }).state.record.errors = [] := rfl
  intro t u ht hu
  rw [runClaimed_eq] at ht hu
  simp only [pursued] at ht hu
  rw [hbegun] at hu
  generalize s.begun { o with maxSteps := some (j : Int) } = b at hwithin hclean ht hu
  have hlimits := followRead_limited hjk p hwithin
  have hfollows := follows_followRead p b
  rcases hx : followRead p b with ⟨x, a⟩
  rcases hy : followRead p (b.limited k) with ⟨y, a'⟩
  rw [hx] at ht hfollows hlimits
  rw [hy] at hu hlimits
  have ha : a.Within j := hwithin.deeds hfollows.deeds
  cases hlimits with
  | same =>
    cases x with
    | error e => simp at ht
    | ok status =>
      simp only [meanwhile_limited] at hu
      obtain rfl : t = u := Except.ok.inj (ht.symm.trans hu)
      cases ht
      refine Trace.truncates_self ?_
      simp only [Record.trace, record_meanwhile, List.length_reverse]
      rw [← ha.underway.counted]
      exact ha.count
  | cut hcut =>
    have hacts : Acts b a := by
      cases hfollows with
      | ended h hstatus => exact h
    cases y with
    | error e => simp at hu
    | ok status =>
      cases ht
      cases hu
      rw [record_meanwhile, record_meanwhile]
      exact hcut.truncates ha ((Acts.errors hacts).trans hclean) _
  | lost => simp at ht

theorem rejectClaimed_error (f : SyntaxFault) (o : Options) (s : Session) :
    ∃ e, (s.rejectClaimed f o).1 = .error e := by
  simp only [rejectClaimed]
  split
  · exact ⟨_, rfl⟩
  · exact ⟨_, rfl⟩

/-- Claims do not depend on the limit. -/
theorem claimed_limited {o : Options} {f : Options → Session → Except RunError Trace × Session}
    (hf : ∀ s : Session, s.state.busy = true → Truncates j (f { o with maxSteps := some j } s).1
      (f { o with maxSteps := k } s).1) (s : Session) :
    Truncates j (s.claimed { o with maxSteps := some j } (f { o with maxSteps := some j })).1
      (s.claimed { o with maxSteps := k } (f { o with maxSteps := k })).1 := by
  unfold claimed
  split
  · simp [Truncates]
  · unfold State.claim?
    cases s.state.busy with
    | true => simp [Truncates]
    | false => exact hf _ rfl

end Session

open Session

/-- A limit of `j` steps gives the trace of a higher limit, or of none, up to its first `j` steps.
The program is ended by the limit as it is by a stop: no part of it runs on account of that. -/
theorem limit_truncates (source : String) (o : Options) (s : Session) (j : Nat) (k : Option Int)
    (hjk : ∀ n ∈ k, (j : Int) ≤ n) :
    Truncates j (s.execute source { o with maxSteps := some j }).1
        (s.execute source { o with maxSteps := k }).1 ∧
      Truncates j (s.executeDecorated source { o with maxSteps := some j }).1
        (s.executeDecorated source { o with maxSteps := k }).1 ∧
      (∀ t : Session, (t.await t.wakes).state.atLimit = true → ∀ id line,
        (t.step id line).1 = .stop) ∧
      ∀ p : Program, (course p host.wantsText).Heeds ∧
        ∀ i w x, details p host.wantsText i w = some x → x.Heeds := by
  refine ⟨?_, ?_, ?_, fun p => ⟨course_heeds p _, fun i w x hx => details_heeds hx⟩⟩
  · refine claimed_limited (f := executeClaimed source) (fun s hbusy => ?_) s
    unfold executeClaimed
    cases read source with
    | error f =>
      obtain ⟨e, he⟩ := rejectClaimed_error f { o with maxSteps := some (j : Int) } s
      intro t u ht
      simp [he] at ht
    | ok p =>
      dsimp only
      cases Instrument.decorate "" p with
      | ok text => exact runClaimed_limited hjk (read text) o hbusy
      | error e => exact fun t u ht => by simp [abandonClaimed] at ht
  · exact claimed_limited (f := fun o s => s.runClaimed (read source) o)
      (fun s hbusy => runClaimed_limited hjk _ o hbusy) s
  · exact fun t hfull id line => step_of_atLimit hfull id line

theorem one_step_of_two :
    (∀ n ∈ some (2 : Int), ((1 : Nat) : Int) ≤ n) ∧
      Truncates 1
        (({} : Session).execute "let x = 1; x++;"
          { ({} : Options) with maxSteps := some ((1 : Nat) : Int) }).1
        (({} : Session).execute "let x = 1; x++;" { ({} : Options) with maxSteps := some 2 }).1 :=
  have hjk : ∀ n ∈ some (2 : Int), ((1 : Nat) : Int) ≤ n := by simp
  ⟨hjk, (limit_truncates "let x = 1; x++;" {} {} 1 (some 2) hjk).1⟩

end Stepper.Engine
