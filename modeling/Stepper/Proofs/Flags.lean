import Stepper.Proofs.Acts

/-!
The flags of an engine. Whoever uses an engine changes its state in moves, each of them made under
one lock. Controls come at any moment, from an observer in the middle of a run as well as from
others. A run claims the engine, starts, passes its gate, records, and releases the engine however
it ends. Every move keeps the flags in agreement with each other and with the one run that there
can be. What a session does is a chain of moves, so the flags agree whenever anyone looks at them.
-/
namespace Stepper.Engine

open Execution Machine Syntax
open Relation (ReflTransGen)

/-! ### What the flags say together -/

/-- The status of an engine between runs. -/
def Status.IsSettled : Status → Prop
  | .idle | .completed | .failed | .stopped => True
  | .running | .paused => False

/-- All ways in which a run can end. -/
def Status.IsEnd (outcome : Status) : Prop :=
  outcome = .completed ∨ outcome = .failed ∨ outcome = .stopped

namespace State

/-- What becomes of an engine that was claimed for a source that cannot be read. -/
def reject (s : State) (maxSteps : Option Int) (e : ErrorRecord) : State :=
  { s.reset maxSteps with record := ({} : Record).addError e, status := .failed, busy := false }

/-- An engine on which no run has started, or the last one has ended. -/
structure Settled (s : State) : Prop extends s.AtRest where
  status : s.status.IsSettled

structure FlagsAgree (s : State) : Prop where
  running_of_paused : s.paused = true → s.running = true
  busy_of_running : s.running = true → s.busy = true
  unstopped : s.running = true → s.stopRequested = false
  status_paused : s.running = true → (s.status = .paused ↔ s.paused = true)
  status_running : s.running = true → (s.status = .running ↔ s.paused = false)
  settled : s.busy = false → s.Settled

variable {s t : State}

theorem Settled.apply (h : s.Settled) (c : Control) : (s.apply c).Settled := by
  by_cases hc : c = .stop
  · subst hc
    rw [apply_stop]
    split
    · exact ⟨⟨rfl, rfl⟩, h.status⟩
    · exact h
  · rw [h.toAtRest.apply hc]
    exact h

/-- A claim leaves an engine as it was, and so does giving the claim up. -/
theorem Settled.claims (h : s.Settled) (busy stopRequested : Bool) :
    Settled { s with busy, stopRequested } := ⟨⟨h.running, h.paused⟩, h.status⟩

/-- Flags that tell of no run agree, if an engine without a claim has a settled status. -/
theorem flagsAgree_of_atRest (hrest : s.AtRest) (hsettled : s.busy = false → s.status.IsSettled) :
    s.FlagsAgree where
  running_of_paused h := by simp [hrest.paused] at h
  busy_of_running h := by simp [hrest.running] at h
  unstopped h := by simp [hrest.running] at h
  status_paused h := by simp [hrest.running] at h
  status_running h := by simp [hrest.running] at h
  settled h := ⟨hrest, hsettled h⟩

theorem Settled.flagsAgree (h : s.Settled) : s.FlagsAgree :=
  flagsAgree_of_atRest h.toAtRest fun _ => h.status

namespace FlagsAgree

theorem pause (h : s.FlagsAgree) : s.pause.FlagsAgree := by
  unfold State.pause
  split
  · next hp =>
    have hrunning : s.running = true := by simp_all
    have hbusy := h.busy_of_running hrunning
    exact {
      running_of_paused := fun _ => hrunning
      busy_of_running := fun _ => hbusy
      unstopped := h.unstopped
      status_paused := fun _ => by simp
      status_running := fun _ => by simp
      settled := fun hfree => by simp [hbusy] at hfree }
  · exact h

theorem resume (h : s.FlagsAgree) : s.resume.FlagsAgree := by
  unfold State.resume
  split
  · next hp =>
    have hrunning := h.running_of_paused hp
    have hbusy := h.busy_of_running hrunning
    exact {
      running_of_paused := fun hp => by simp at hp
      busy_of_running := fun _ => hbusy
      unstopped := h.unstopped
      status_paused := fun _ => by simp [hrunning]
      status_running := fun _ => by simp [hrunning]
      settled := fun hfree => by simp [hbusy] at hfree }
  · exact h

theorem stop (h : s.FlagsAgree) : s.stop.FlagsAgree := by
  unfold State.stop
  split
  · next hp =>
    have hbusy : s.busy = true := by simp_all
    exact flagsAgree_of_atRest ⟨rfl, rfl⟩ fun hfree => by simp [hbusy] at hfree
  · exact h

/-- Neither the allowance nor the record takes part. -/
theorem aside (h : s.FlagsAgree) (allowance : Bool) (record : Record) :
    FlagsAgree { s with allowance, record } :=
  ⟨h.running_of_paused, h.busy_of_running, h.unstopped, h.status_paused, h.status_running,
    fun hfree => ⟨⟨(h.settled hfree).running, (h.settled hfree).paused⟩, (h.settled hfree).status⟩⟩

theorem stepForward (h : s.FlagsAgree) : s.stepForward.FlagsAgree := by
  unfold State.stepForward
  split
  · exact h.aside true s.record
  · exact h

theorem apply (h : s.FlagsAgree) (c : Control) : (s.apply c).FlagsAgree := by
  cases c with
  | pause => exact h.pause
  | resume => exact h.resume
  | stop => exact h.stop
  | stepForward => exact h.stepForward

/-- The limit ends a run as a stop does. -/
theorem pass (h : s.FlagsAgree) (hbusy : s.busy = true) (id line : Int) :
    (s.pass id line).2.FlagsAgree := by
  obtain ⟨-, hpass⟩ | ⟨-, -, hpass⟩ | ⟨-, -, hpass⟩ := s.pass_cases id line
  · rw [hpass]
    exact h
  · rw [hpass]
    exact flagsAgree_of_atRest ⟨rfl, rfl⟩ fun hfree => by simp [hbusy] at hfree
  · rw [hpass]
    exact h.aside _ _

end FlagsAgree

@[simp] theorem busy_pass (s : State) (id line : Int) : (s.pass id line).2.busy = s.busy := by
  obtain ⟨-, hpass⟩ | ⟨-, -, hpass⟩ | ⟨-, -, hpass⟩ := s.pass_cases id line <;> rw [hpass]

theorem claim_eq_some (h : s.claim? = some t) :
    s.busy = false ∧ t = { s with busy := true, stopRequested := false } := by
  unfold claim? at h
  cases hbusy : s.busy with
  | true => simp [hbusy] at h
  | false => exact ⟨rfl, by simpa [hbusy] using h.symm⟩

/-- A run that was stopped while it waited does not run. -/
theorem flagsAgree_start (hbusy : s.busy = true) (maxSteps : Option Int) :
    (s.start maxSteps).FlagsAgree where
  running_of_paused h := by simp [start, reset] at h
  busy_of_running _ := hbusy
  unstopped h := by simpa [start, reset] using h
  status_paused _ := by simp [start, reset]
  status_running _ := by simp [start, reset]
  settled h := by simp [start, reset, hbusy] at h

theorem settled_finish {outcome : Status} (h : outcome.IsEnd) (s : State) :
    (s.finish outcome).Settled := by
  refine ⟨⟨rfl, rfl⟩, ?_⟩
  simp only [finish, finalStatus]
  split
  · trivial
  · rcases h with rfl | rfl | rfl <;> trivial

end State

/-! ### Moves and sessions -/

/-- An engine, and how many runs have claimed it and wait, or have started and not yet ended. -/
structure Shared where
  state : State := {}
  waiting : Nat := 0
  started : Nat := 0

namespace Shared

inductive Move : Shared → Shared → Prop where
  | control (s : State) (w r : Nat) (c : Control) : Move ⟨s, w, r⟩ ⟨s.apply c, w, r⟩
  | claim {s t : State} (w r : Nat) (h : s.claim? = some t) : Move ⟨s, w, r⟩ ⟨t, w + 1, r⟩
  /-- A claim is given up: the source cannot be decorated, or nobody is there to run it. -/
  | abandon (s : State) (w r : Nat) : Move ⟨s, w + 1, r⟩ ⟨s.unclaim, w, r⟩
  | reject (s : State) (w r : Nat) (maxSteps : Option Int) (e : ErrorRecord) :
      Move ⟨s, w + 1, r⟩ ⟨s.reject maxSteps e, w, r⟩
  | start (s : State) (w r : Nat) (maxSteps : Option Int) :
      Move ⟨s, w + 1, r⟩ ⟨s.start maxSteps, w, r + 1⟩
  | pass (s : State) (w r : Nat) (id line : Int) (hfree : s.isHeld = false) :
      Move ⟨s, w, r + 1⟩ ⟨(s.pass id line).2, w, r + 1⟩
  | record (s : State) (w r : Nat) (f : Record → Record) :
      Move ⟨s, w, r + 1⟩ ⟨{ s with record := f s.record }, w, r + 1⟩
  | finish (s : State) (w r : Nat) {outcome : Status} (h : outcome.IsEnd) :
      Move ⟨s, w, r + 1⟩ ⟨s.finish outcome, w, r⟩

abbrev Moves : Shared → Shared → Prop := ReflTransGen Move

/-- The flags agree, and the engine is claimed by exactly the run there is. Until that run starts,
they are as they were between runs. -/
structure Sound (x : Shared) : Prop extends State.FlagsAgree x.state where
  claims : x.waiting + x.started = x.state.busy.toNat
  waits : x.waiting = 1 → x.state.Settled

variable {x y : Shared}

theorem sound_new : Sound {} where
  toFlagsAgree := State.Settled.flagsAgree ⟨⟨rfl, rfl⟩, trivial⟩
  claims := rfl
  waits h := by simp at h

theorem Sound.busy_of_waiting {s : State} {w r : Nat} (h : Sound ⟨s, w + 1, r⟩) :
    s.busy = true ∧ w = 0 ∧ r = 0 := by
  have hclaims : w + 1 + r = s.busy.toNat := h.claims
  cases hb : s.busy with
  | true => exact ⟨rfl, by simp [hb] at hclaims; omega⟩
  | false => simp [hb] at hclaims

theorem Sound.busy_of_started {s : State} {w r : Nat} (h : Sound ⟨s, w, r + 1⟩) :
    s.busy = true ∧ w = 0 ∧ r = 0 := by
  have hclaims : w + (r + 1) = s.busy.toNat := h.claims
  cases hb : s.busy with
  | true => exact ⟨rfl, by simp [hb] at hclaims; omega⟩
  | false => simp [hb] at hclaims

theorem Move.sound (h : Move x y) (hx : Sound x) : Sound y := by
  cases h with
  | control s w r c =>
    exact ⟨hx.toFlagsAgree.apply c, by rw [State.busy_apply]; exact hx.claims,
      fun hw => (hx.waits hw).apply c⟩
  | @claim s t w r h =>
    obtain ⟨hbusy, rfl⟩ := State.claim_eq_some h
    have hnow := (hx.settled hbusy).claims true false
    have hclaims : w + r = s.busy.toNat := hx.claims
    rw [hbusy] at hclaims
    refine ⟨hnow.flagsAgree, ?_, fun _ => hnow⟩
    change w + 1 + r = 1
    rw [Nat.add_right_comm, hclaims]
    rfl
  | abandon s w r =>
    obtain ⟨-, rfl, rfl⟩ := hx.busy_of_waiting
    have hnow := (hx.waits rfl).claims false s.stopRequested
    exact ⟨hnow.flagsAgree, rfl, fun hw => by simp at hw⟩
  | reject s w r maxSteps e =>
    obtain ⟨-, rfl, rfl⟩ := hx.busy_of_waiting
    have hnow : (s.reject maxSteps e).Settled := ⟨⟨(hx.waits rfl).running, rfl⟩, trivial⟩
    exact ⟨hnow.flagsAgree, rfl, fun hw => by simp at hw⟩
  | start s w r maxSteps =>
    obtain ⟨hbusy, rfl, rfl⟩ := hx.busy_of_waiting
    refine ⟨State.flagsAgree_start hbusy maxSteps, ?_, fun hw => by simp at hw⟩
    simp [State.start, State.reset, hbusy]
  | pass s w r id line hfree =>
    obtain ⟨hbusy, rfl, rfl⟩ := hx.busy_of_started
    exact ⟨hx.toFlagsAgree.pass hbusy id line, by simp [hbusy], fun hw => by simp at hw⟩
  | record s w r f =>
    obtain ⟨hbusy, rfl, rfl⟩ := hx.busy_of_started
    exact ⟨hx.toFlagsAgree.aside _ _, by simp [hbusy], fun hw => by simp at hw⟩
  | finish s w r h =>
    obtain ⟨-, rfl, rfl⟩ := hx.busy_of_started
    exact ⟨(State.settled_finish h s).flagsAgree, rfl, fun hw => by simp at hw⟩

theorem Moves.sound (h : Moves x y) (hx : Sound x) : Sound y := by
  induction h with
  | refl => exact hx
  | tail _ h ih => exact h.sound ih

/-- No second run begins before the first has ended. -/
theorem Sound.one (h : Sound x) : x.waiting + x.started ≤ 1 :=
  h.claims ▸ Bool.toNat_le _

end Shared

/-- What an entry shows of the flags. -/
def Entry.reading? : Entry → Option Reading
  | .controlled _ after | .woken _ after => some after
  | _ => none

theorem Entry.IsRemark.reading? {e : Entry} (h : e.IsRemark) : e.reading? = none := by
  cases e <;> trivial

namespace Session

open Shared (Moves)

/-- A session goes in moves from `s` to `t`, and what its log shows on the way it was at some of
them. -/
structure Leads (s : Session) (w r : Nat) (t : Session) (w' r' : Nat) : Prop where
  moves : Moves ⟨s.state, w, r⟩ ⟨t.state, w', r'⟩
  shown : ∃ es, t.log = es ++ s.log ∧ ∀ e ∈ es, ∀ q, e.reading? = some q →
    ∃ x : Shared, Moves ⟨s.state, w, r⟩ x ∧ x.state.reading = q

variable {s t u : Session} {w r w' r' w'' r'' : Nat}

theorem Leads.trans (h : Leads s w r t w' r') (k : Leads t w' r' u w'' r'') :
    Leads s w r u w'' r'' := by
  obtain ⟨es, hes, hshown⟩ := h.shown
  obtain ⟨fs, hfs, hshown'⟩ := k.shown
  refine ⟨h.moves.trans k.moves, fs ++ es, by rw [hfs, hes, List.append_assoc],
    fun e he q hq => ?_⟩
  rcases List.mem_append.mp he with he | he
  · obtain ⟨x, hx, hxq⟩ := hshown' e he q hq
    exact ⟨x, h.moves.trans hx, hxq⟩
  · exact hshown e he q hq

/-- Moves of which the log says nothing. -/
theorem leads_of_moves (h : Moves ⟨s.state, w, r⟩ ⟨t.state, w', r'⟩) (hlog : t.log = s.log) :
    Leads s w r t w' r' := ⟨h, [], hlog, by simp⟩

theorem leads_aside (hstate : t.state = s.state) (hlog : t.log = s.log) : Leads s w r t w r :=
  leads_of_moves (hstate ▸ .refl) hlog

/-- An entry may show the flags as they are. -/
theorem leads_note {e : Entry} (he : ∀ q, e.reading? = some q → s.state.reading = q) :
    Leads s w r (s.note e) w r := by
  refine ⟨.refl, [e], rfl, fun f hf q hq => ?_⟩
  rw [List.mem_singleton.mp hf] at hq
  exact ⟨⟨s.state, w, r⟩, .refl, he q hq⟩

theorem leads_control (s : Session) (c : Control) : Leads s w r (s.control c) w r :=
  leads_of_moves (.single (.control s.state w r c)) rfl

theorem leads_surroundings : Surroundings fun s t => ∀ w r, Leads s w r t w r where
  refl _ _ _ := leads_aside rfl rfl
  trans h k w r := (h w r).trans (k w r)
  aside _ _ hstate hlog _ _ := leads_aside hstate hlog
  control s c _ _ := (leads_control s c).trans (leads_note fun _ hq => Option.some.inj hq)
  wake s c _ _ := (leads_control s c).trans (leads_note fun _ hq => Option.some.inj hq)
  remark s e he _ _ := leads_note fun q hq => by simp [he.reading?] at hq

theorem Act.leads (h : Act s t) : Leads s w (r + 1) t w (r + 1) := by
  cases h with
  | aside hstate hlog => exact leads_aside hstate hlog
  | control c => exact leads_surroundings.control s c _ _
  | wake c => exact leads_surroundings.wake s c _ _
  | remark he => exact leads_surroundings.remark s _ he _ _
  | hear who n hn => exact leads_note fun q hq => by cases hq
  | pass id line hfree => exact leads_of_moves (.single (.pass s.state w r id line hfree)) rfl
  | @record f hf => exact leads_of_moves (.single (.record s.state w r f)) rfl

theorem Deeds.leads (h : Deeds s t) : Leads s w (r + 1) t w (r + 1) := by
  induction h with
  | refl => exact leads_aside rfl rfl
  | tail _ h ih =>
    rcases h with h | ⟨e, rfl⟩
    · exact ih.trans h.leads
    · exact ih.trans (leads_of_moves (.single (.record _ w r (·.addError e))) rfl)

/-! ### Runs and uses -/

theorem Follows.isEnd {status : Status} (h : Follows s (.ok status) t) : status.IsEnd := by
  cases h with
  | ended _ hstatus => exact hstatus.imp_right .inr
  | failed _ _ => exact .inr (.inl rfl)

theorem leads_finish {outcome : Status} (h : outcome.IsEnd) (s : Session) :
    Leads s w (r + 1) (s.modifyState (·.finish outcome)) w r :=
  leads_of_moves (.single (.finish s.state w r h)) rfl

theorem leads_release {outcome : Except RunError Status} (h : Follows s outcome t) :
    Leads t w (r + 1) (release outcome t).2 w r := by
  have hbefore := leads_surroundings.meanwhile t w (r + 1)
  cases outcome with
  | ok status =>
    exact (hbefore.trans (leads_finish h.isEnd _)).trans (leads_surroundings.meanwhile _ w r)
  | error e => exact hbefore.trans (leads_finish (.inr (.inl rfl)) _)

/-- A run that has claimed the engine releases it. -/
theorem leads_runClaimed (p : Except SyntaxFault Program) (o : Options) (s : Session) :
    Leads s (w + 1) r (s.runClaimed p o).2 w r := by
  have hbefore := leads_surroundings.meanwhile s (w + 1) r
  have hbegin : Leads s.meanwhile (w + 1) r (s.begun o) w (r + 1) :=
    leads_of_moves (.single (.start _ w r o.maxSteps)) rfl
  have hfollows := follows_followRead p (s.begun o)
  rw [runClaimed_eq_release]
  exact ((hbefore.trans hbegin).trans hfollows.deeds.leads).trans (leads_release hfollows)

/-- A session whose engine has been claimed. -/
def claim (s : Session) : Session :=
  { s with state := { s.state with busy := true, stopRequested := false } }

/-- A request for a run makes no sense, or comes to an engine that is busy, or claims it. -/
theorem claimed_cases {α : Type} (o : Options) (s : Session)
    (f : Session → Except RunError α × Session) :
    (o.speed <= 0 ∧ s.claimed o f = (.error (.badSpeed o.speed), s)) ∨
    (¬ o.speed <= 0 ∧ s.state.busy = true ∧ s.claimed o f = (.error .busy, s)) ∨
    (¬ o.speed <= 0 ∧ s.state.busy = false ∧ s.claimed o f = f s.claim) := by
  unfold claimed
  by_cases hspeed : o.speed <= 0
  · exact .inl ⟨hspeed, if_pos hspeed⟩
  · rw [if_neg hspeed]
    unfold State.claim?
    cases hbusy : s.state.busy with
    | true => exact .inr (.inl ⟨hspeed, rfl, rfl⟩)
    | false => exact .inr (.inr ⟨hspeed, rfl, rfl⟩)

/-- What is done with an engine that has been claimed, if it releases it, can be done with any. -/
theorem leads_claimed {α : Type} (o : Options) (s : Session)
    {f : Session → Except RunError α × Session}
    (hf : ∀ s w r, Leads s (w + 1) r (f s).2 w r) : Leads s w r (s.claimed o f).2 w r := by
  unfold claimed
  split
  · exact leads_aside rfl rfl
  · cases hclaim : s.state.claim? with
    | none => exact leads_aside rfl rfl
    | some state =>
      have hclaimed : Leads s w r { s with state } (w + 1) r :=
        leads_of_moves (.single (.claim w r hclaim)) rfl
      exact hclaimed.trans (hf _ w r)

theorem leads_launch (p : Program) (s : Session) : Leads s w r (launch p s) w r :=
  leads_claimed {} s fun s _ _ => leads_runClaimed (.ok p) {} s

/-- Those who hear of a source that cannot be read may run another at once. -/
theorem leads_rejectClaimed (f : SyntaxFault) (o : Options) (s : Session) :
    Leads s (w + 1) r (s.rejectClaimed f o).2 w r := by
  have hbefore := leads_surroundings.meanwhile s (w + 1) r
  have hreject : Leads s.meanwhile (w + 1) r ((s.meanwhile.modifyState
      (·.reject o.maxSteps (.ofFault f))).engage o.observers) w r :=
    leads_of_moves (.single (.reject _ w r o.maxSteps (.ofFault f))) rfl
  have hdeliver := leads_surroundings.deliver (n := .error (.ofFault f))
    (fun p s _ _ _ => leads_launch p s) (fun s who _ _ => leads_note fun q hq => by cases hq)
    ((s.meanwhile.modifyState (·.reject o.maxSteps (.ofFault f))).engage o.observers) w r
  have hall := hbefore.trans (hreject.trans hdeliver)
  have hend : (s.rejectClaimed f o).2 = (((s.meanwhile.modifyState (·.reject o.maxSteps
      (.ofFault f))).engage o.observers).deliver launch (.error (.ofFault f))).2 := by
    simp only [rejectClaimed]
    split
    · next h => exact (congrArg Prod.snd h).symm
    · next h => exact (congrArg Prod.snd h).symm
  exact hend ▸ hall

theorem leads_abandonClaimed (s : Session) : Leads s (w + 1) r s.abandonClaimed.2 w r :=
  (leads_surroundings.meanwhile s (w + 1) r).trans
    (leads_of_moves (.single (.abandon s.meanwhile.state w r)) rfl)

theorem leads_executeDecorated (source : String) (o : Options) (s : Session) :
    Leads s w r (s.executeDecorated source o).2 w r :=
  leads_claimed o s fun s _ _ => leads_runClaimed (read source) o s

theorem leads_execute (source : String) (o : Options) (s : Session) :
    Leads s w r (s.execute source o).2 w r := by
  rw [execute_eq]
  refine leads_claimed o s fun s w r => ?_
  unfold executeClaimed
  cases read source with
  | error f => exact leads_rejectClaimed f o s
  | ok p =>
    dsimp only
    cases Instrument.decorate "" p with
    | ok text => exact leads_runClaimed (read text) o s
    | error e => exact leads_abandonClaimed s

theorem snd_start (source : String) (o : Options) (s : Session) :
    (s.start source o).2 = (s.execute source o).2 := by
  unfold start
  split <;> simp_all

/-- What is done with a session from outside, one thing after the other. -/
inductive Use : Session → Session → Prop where
  | execute (source : String) (o : Options) (s : Session) : Use s (s.execute source o).2
  | executeDecorated (source : String) (o : Options) (s : Session) :
      Use s (s.executeDecorated source o).2
  | start (source : String) (o : Options) (s : Session) : Use s (s.start source o).2
  | control (c : Control) (s : Session) : Use s (s.control c)
  /-- Observers subscribe, and others choose what they will ask for. -/
  | arrange {s t : Session} (hstate : t.state = s.state) (hlog : t.log = s.log) : Use s t

theorem Use.leads (h : Use s t) : Leads s w r t w r := by
  cases h with
  | execute source o => exact leads_execute source o s
  | executeDecorated source o => exact leads_executeDecorated source o s
  | start source o =>
    rw [snd_start]
    exact leads_execute source o s
  | control c => exact leads_control s c
  | arrange hstate hlog => exact leads_aside hstate hlog

theorem leads_of_uses (h : ReflTransGen Use s t) : Leads s w r t w r := by
  induction h with
  | refl => exact leads_aside rfl rfl
  | tail _ h ih => exact ih.trans h.leads

end Session

/-- Whatever is done with an engine, in whatever order the moves of those who use it come, its flags
agree and there is one run at most. A session is among these engines before each of its uses, and
at each moment that its log shows. -/
theorem flags_agree :
    (∀ x : Shared, Shared.Moves {} x → x.state.FlagsAgree ∧ x.waiting + x.started ≤ 1) ∧
    ∀ s : Session, ReflTransGen Session.Use {} s →
      Shared.Moves {} ⟨s.state, 0, 0⟩ ∧ s.state.busy = false ∧
      ∀ e ∈ s.log, ∀ q, e.reading? = some q →
        ∃ x : Shared, Shared.Moves {} x ∧ x.state.reading = q := by
  refine ⟨fun x hx => ?_, fun s hs => ?_⟩
  · have hsound := hx.sound Shared.sound_new
    exact ⟨hsound.toFlagsAgree, hsound.one⟩
  · have hleads : Session.Leads {} 0 0 s 0 0 := Session.leads_of_uses hs
    have hclaims : 0 = s.state.busy.toNat := (hleads.moves.sound Shared.sound_new).claims
    obtain ⟨es, hes, hshown⟩ := hleads.shown
    refine ⟨hleads.moves, Bool.toNat_eq_zero.mp hclaims.symm, fun e he => hshown e ?_⟩
    simpa [hes] using he

/-- An engine that is paused in a run. -/
def pausedRun : Shared :=
  ⟨{ status := .paused, busy := true, running := true, paused := true }, 0, 1⟩

theorem pausedRun_agrees :
    Shared.Moves {} pausedRun ∧ pausedRun.state.FlagsAgree ∧
    ReflTransGen Session.Use {} (({} : Session).execute "let x = 1;" {}).2 ∧
      (({} : Session).execute "let x = 1;" {}).2.state.busy = false := by
  have hmoves : Shared.Moves {} pausedRun :=
    ((ReflTransGen.single (.claim 0 0 rfl)).tail (.start _ 0 0 none)).tail (.control _ 0 1 .pause)
  have huses : ReflTransGen Session.Use {} (({} : Session).execute "let x = 1;" {}).2 :=
    .single (.execute "let x = 1;" {} {})
  exact ⟨hmoves, (flags_agree.1 pausedRun hmoves).1, huses, (flags_agree.2 _ huses).2.1⟩

end Stepper.Engine
