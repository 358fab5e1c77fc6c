import Mathlib.Logic.Relation
import Stepper.Proofs.Pausing

/-!
What happens in a session, act by act. While a run goes on, observers are told and answer, others
take their turns, a step passes the gate or is turned away there, and the record grows by what the
program tells. Each of these is an act. Everything that a session does between the start of a run
and its release is a chain of acts, but for the record of an error that a failed run leaves. What
every act keeps is thereby kept by a whole run.
-/
namespace Stepper.Engine

open Execution Machine Syntax
open Relation (ReflTransGen)

/-- Controls leave the record as it is. -/
@[simp] theorem State.record_apply (s : State) (c : Control) : (s.apply c).record = s.record := by
  cases c <;> simp only [apply, pause, resume, stop, stepForward] <;> split <;> rfl

@[simp] theorem State.busy_apply (s : State) (c : Control) : (s.apply c).busy = s.busy := by
  cases c <;> simp only [apply, pause, resume, stop, stepForward] <;> split <;> rfl

/-- All that the gate can do with a run that is not held. -/
theorem State.pass_cases (s : State) (id line : Int) :
    (s.running = false ∧ s.pass id line = (false, s)) ∨
    (s.running = true ∧ s.atLimit = true ∧ s.pass id line = (false, { s with
      running := false, paused := false, allowance := false, stopRequested := true })) ∨
    (s.running = true ∧ s.atLimit = false ∧ s.pass id line =
      (true, { s with allowance := false, record := s.record.addStep id line })) := by
  rw [pass_eq]
  cases s.running with
  | false => exact .inl ⟨rfl, rfl⟩
  | true =>
    cases s.atLimit with
    | true => exact .inr (.inl ⟨rfl, rfl, rfl⟩)
    | false => exact .inr (.inr ⟨rfl, rfl, rfl⟩)

/-- What passes the gate is recorded. -/
theorem State.record_of_pass {s t : State} {id line : Int} (h : s.pass id line = (true, t)) :
    t.record = s.record.addStep id line := by
  obtain ⟨-, hpass⟩ | ⟨-, -, hpass⟩ | ⟨-, -, hpass⟩ := s.pass_cases id line
  · simp [hpass] at h
  · simp [hpass] at h
  · rw [hpass] at h
    cases h
    rfl

/-- A change of a record that neither adds a step or an error nor takes back what was written to the
console. -/
structure Record.Keeps (f : Record → Record) : Prop where
  steps : ∀ r, (f r).steps = r.steps
  count : ∀ r, (f r).count = r.count
  errors : ∀ r, (f r).errors = r.errors
  console : ∀ r, r.console <:+ (f r).console

theorem keeps_write (m : ConsoleRecord) : Record.Keeps (·.write m) where
  steps _ := rfl
  count _ := rfl
  errors _ := rfl
  console _ := List.suffix_cons ..

/-- What a program tells apart from its steps and its console changes nothing but its variables, its
functions, and the memory that they use. -/
theorem recording_eq {c : Call} {f : Record → Record} (h : Session.recording c = .ok f)
    (r : Record) : ∃ vars stack memory peakMemory,
      f r = { r with vars, stack, memory, peakMemory } := by
  cases c with
  | track heap room name v =>
    simp only [Session.recording] at h
    cases hv : heap.capture room v with
    | error x => simp [hv, bind, Except.bind] at h
    | ok x =>
      simp only [hv, bind, Except.bind, pure, Except.pure, Except.ok.injEq] at h
      subst h
      exact ⟨_, _, _, _, rfl⟩
  | enter heap room name args =>
    simp only [Session.recording] at h
    cases hv : args.mapM (heap.export_ room) with
    | error x => simp [hv, bind, Except.bind] at h
    | ok x =>
      simp only [hv, bind, Except.bind, pure, Except.pure, Except.ok.injEq] at h
      subst h
      exact ⟨_, _, _, _, rfl⟩
  | _ =>
    cases h
    exact ⟨_, _, _, _, rfl⟩

/-- What a call adds to the record takes nothing away. -/
theorem keeps_recording {c : Call} {f : Record → Record} (h : Session.recording c = .ok f) :
    Record.Keeps f := by
  refine ⟨fun r => ?_, fun r => ?_, fun r => ?_, fun r => ?_⟩ <;>
    obtain ⟨_, _, _, _, hr⟩ := recording_eq h r
  · rw [hr]
  · rw [hr]
  · rw [hr]
  · exact hr ▸ List.suffix_rfl

/-- Goes into the log without the engine. -/
def Entry.IsRemark : Entry → Prop
  | .refused _ | .launched _ | .failed => True
  | _ => False

namespace Session

variable {s t u : Session}

/-- A relation in which a session stands to all that its observers and others make of it. -/
structure Surroundings (R : Session → Session → Prop) : Prop where
  refl : ∀ s, R s s
  trans : ∀ {s t u}, R s t → R t u → R s u
  /-- Observers count what they hear, and others come to the end of a turn. -/
  aside : ∀ s t : Session, t.state = s.state → t.log = s.log → R s t
  control : ∀ (s : Session) c, R s ((s.control c).note (.controlled c (s.control c).state.reading))
  wake : ∀ (s : Session) c, R s (s.wake c)
  remark : ∀ (s : Session) (e : Entry), e.IsRemark → R s (s.note e)

namespace Surroundings

variable {R : Session → Session → Prop} (hR : Surroundings R)

include hR

theorem foldl_wake (s : Session) (cs : List Control) : R s (cs.foldl Session.wake s) := by
  induction cs generalizing s with
  | nil => exact hR.refl s
  | cons c cs ih => exact hR.trans (hR.wake s c) (ih _)

/-- Others act while the run is between two of its acts. -/
theorem meanwhile (s : Session) : R s s.meanwhile := by
  unfold Session.meanwhile
  cases s.others with
  | nil => exact hR.refl s
  | cons cs others =>
    exact hR.trans (hR.aside s { s with others } rfl rfl) (hR.foldl_wake { s with others } cs)

/-- Others act while a step waits. -/
theorem await (s : Session) (wakes : List Control) : R s (s.await wakes) := by
  induction wakes generalizing s with
  | nil =>
    unfold Session.await
    split
    · exact hR.aside s _ rfl rfl
    · exact hR.trans (hR.wake s .resume) (hR.aside _ _ rfl rfl)
  | cons c wakes ih =>
    unfold Session.await
    split
    · exact hR.aside s _ rfl rfl
    · exact hR.trans (hR.wake s c) (hR.trans (hR.meanwhile _) (ih _))

variable {launch : Program → Session → Session}
  (hlaunch : ∀ p s, s.state.busy = false → R s (launch p s))

include hlaunch

/-- An observer's requests are served one by one. -/
theorem serve (rs : List Request) (s : Session) : R s (Session.serve launch rs s).2 := by
  induction rs generalizing s with
  | nil => exact hR.refl s
  | cons r rs ih =>
    cases r with
    | control c => exact hR.trans (hR.control s c) (ih _)
    | launch l p =>
      unfold Session.serve
      split
      · exact hR.trans (hR.remark s (.refused l) trivial) (ih _)
      · next hfree =>
        have hp : R s (launch p s) := hlaunch p s (by simpa using hfree)
        exact hR.trans hp (hR.trans (hR.remark _ (.launched l) trivial) (ih _))
    | fail => exact hR.remark s .failed trivial

variable {n : Notice} (hhear : ∀ (s : Session) who, R s (s.note (.heard who n)))

include hhear

/-- An observer is told, and acts. -/
theorem tell (i : Nat) (s : Session) : R s (Session.tell launch n i s).2 := by
  unfold Session.tell
  cases s.observers[i]? with
  | none => exact hR.refl s
  | some o =>
    have hcount := hR.aside s { s with
      observers := s.observers.modify i fun o => { o with heard := o.heard + 1 } } rfl rfl
    exact hR.trans hcount (hR.trans (hhear _ o.name) (hR.serve hlaunch _ _))

/-- Observers are told one after the other. -/
theorem tellAll (is : List Nat) (s : Session) : R s (Session.tellAll launch n is s).2 := by
  induction is generalizing s with
  | nil => exact hR.refl s
  | cons i is ih =>
    have htold := hR.trans (hR.meanwhile s) (hR.tell hlaunch hhear i s.meanwhile)
    unfold Session.tellAll
    rcases ht : Session.tell launch n i s.meanwhile with ⟨b, t⟩
    rw [ht] at htold
    cases b with
    | true => exact hR.trans htold (ih t)
    | false => exact htold

/-- A notice is delivered to those who listen when it is given. -/
theorem deliver (s : Session) : R s (Session.deliver launch n s).2 :=
  hR.tellAll hlaunch hhear _ s

omit hlaunch in
theorem deliverBusy (s : Session) : R s (s.deliverBusy n).2 :=
  hR.deliver (fun _ s _ => hR.refl s) hhear s

end Surroundings

def addError (s : Session) (e : ErrorRecord) : Session :=
  s.modifyState fun x => { x with record := x.record.addError e }

inductive Act : Session → Session → Prop where
  | aside {s t : Session} (hstate : t.state = s.state) (hlog : t.log = s.log) : Act s t
  | control (s : Session) (c : Control) :
      Act s ((s.control c).note (.controlled c (s.control c).state.reading))
  | wake (s : Session) (c : Control) : Act s (s.wake c)
  | remark (s : Session) {e : Entry} (he : e.IsRemark) : Act s (s.note e)
  /-- Of the steps only the latest is heard of. -/
  | hear (s : Session) (who : String) (n : Notice)
      (hn : ∀ r, n = .step r → s.state.record.steps.head? = some r) : Act s (s.note (.heard who n))
  | pass (s : Session) (id line : Int) (hfree : s.state.isHeld = false) :
      Act s { s with state := (s.state.pass id line).2 }
  | record (s : Session) {f : Record → Record} (hf : Record.Keeps f) :
      Act s (s.modifyState fun e => { e with record := f e.record })

abbrev Acts : Session → Session → Prop := ReflTransGen Act

theorem acts_surroundings : Surroundings Acts where
  refl _ := .refl
  trans := .trans
  aside _ _ hstate hlog := .single (.aside hstate hlog)
  control s c := .single (.control s c)
  wake s c := .single (.wake s c)
  remark s _ he := .single (.remark s he)

/-- While the latest step is delivered it stays the latest. -/
theorem acts_deliverBusy {n : Notice}
    (hn : ∀ r, n = .step r → s.state.record.steps.head? = some r) : Acts s (s.deliverBusy n).2 := by
  let R (s t : Session) : Prop := (∀ r, n = .step r → s.state.record.steps.head? = some r) →
    Acts s t ∧ t.state.record = s.state.record
  have hR : Surroundings R := {
    refl := fun s _ => ⟨.refl, rfl⟩
    trans := fun {s t u} hst htu hs =>
      have ⟨hacts, hrecord⟩ := hst hs
      have ⟨hacts', hrecord'⟩ := htu (hrecord ▸ hs)
      ⟨hacts.trans hacts', hrecord'.trans hrecord⟩
    aside := fun s t hstate hlog _ => ⟨.single (.aside hstate hlog), by rw [hstate]⟩
    control := fun s c _ => ⟨.single (.control s c), State.record_apply s.state c⟩
    wake := fun s c _ => ⟨.single (.wake s c), State.record_apply s.state c⟩
    remark := fun s e he _ => ⟨.single (.remark s he), rfl⟩ }
  have hhear (s : Session) (who : String) : R s (s.note (.heard who n)) :=
    fun hs => ⟨.single (.hear s who n hs), rfl⟩
  exact (hR.deliverBusy hhear s hn).1

@[simp] theorem snd_reply (x : Bool × Session) : (reply x).2 = x.2 := by
  rcases x with ⟨_ | _, s⟩ <;> rfl

/-- A step is a series of acts. -/
theorem acts_step (s : Session) (id line : Int) : Acts s (s.step id line).2 := by
  unfold step
  cases s.state.running with
  | false => exact .refl
  | true =>
    simp only [Bool.not_true, Bool.false_eq_true, ↓reduceIte]
    have hlet := acts_surroundings.await s s.wakes
    have hpass := hlet.tail (.pass _ id line (isHeld_await s s.wakes))
    rcases hverdict : (s.await s.wakes).state.pass id line with ⟨b, x⟩
    rw [hverdict] at hpass
    cases b with
    | false => exact hpass
    | true =>
      have hlatest : x.record.steps.head? =
          some ((s.await s.wakes).state.record.nextStep id line) := by
        simp [State.record_of_pass hverdict]
      have hdeliver := acts_deliverBusy (s := { s.await s.wakes with state := x })
        (n := .step ((s.await s.wakes).state.record.nextStep id line))
        fun r hr => Notice.step.inj hr ▸ hlatest
      simpa using hpass.trans hdeliver

theorem acts_write (s : Session) (kind : ConsoleKind) (message : Text) :
    Acts s (s.write kind message).2 := by
  have hwrite : Acts s _ := .single (.record s (keeps_write ⟨kind, message⟩))
  have hdeliver := acts_deliverBusy (n := .console ⟨kind, message⟩)
    (s := s.modifyState fun e => { e with record := e.record.write ⟨kind, message⟩ })
    fun r hr => by cases hr
  simpa [write] using hwrite.trans hdeliver

theorem acts_takeDown (s : Session) (c : Call) : Acts s (s.takeDown c).2 := by
  unfold takeDown
  cases hf : recording c with
  | ok f => exact .single (.record s (keeps_recording hf))
  | error f => exact .refl

/-- Whatever a program calls, the session answers by acts. -/
theorem acts_hear (c : Call) (s : Session) : Acts s (hear c s).2 := by
  refine (acts_surroundings.meanwhile s).trans ?_
  cases c with
  | step id line => exact acts_step _ id line
  | console kind m =>
    cases m with
    | text message => exact acts_write _ kind message
    | values h room vs => exact acts_takeDown _ _
  | _ => exact acts_takeDown _ _

/-- A course driven by the session is a series of acts, by induction on the course. -/
theorem acts_drive {α : Type} (x : Course α) (s : Session) : Acts s (x.drive host s).2 := by
  induction x generalizing s with
  | done a w => exact .refl
  | broke i w => exact .refl
  | tell c w next ih => exact (acts_hear c s).trans (ih _ _)

/-- So is what a program does to describe an exception. -/
theorem acts_endingOf (p : Program) (i : Interrupt) (w : World) (s : Session) :
    Acts s (endingOf p host i w s).2 := by
  unfold endingOf
  cases details p host.wantsText i w with
  | none => exact .refl
  | some x =>
    have hx := acts_drive x s
    rcases hd : x.drive host s with ⟨a, t⟩
    rw [hd] at hx
    simp only [hd]
    cases a with
    | done d w => exact hx
    | broke i w => exact hx

/-- An act, or the record of an error. -/
def Deed (s t : Session) : Prop := Act s t ∨ ∃ e, t = s.addError e

abbrev Deeds : Session → Session → Prop := ReflTransGen Deed

/-- Acts are deeds. -/
theorem Acts.deeds (h : Acts s t) : Deeds s t := ReflTransGen.mono (fun _ _ => .inl) _ _ h

/-- How a session follows a program: to its end or to a stop, or to a failure that leaves the record
of one error, or to an end that nobody can tell. -/
inductive Follows (s : Session) : Except RunError Status → Session → Prop where
  | ended {status : Status} {t : Session} (h : Acts s t)
      (hstatus : status = .completed ∨ status = .stopped) : Follows s (.ok status) t
  | failed {t u : Session} {e : ErrorRecord} (h : Acts s t) (h' : Acts (t.addError e) u) :
      Follows s (.ok .failed) u
  | lost {e : RunError} {t : Session} (h : Deeds s t) : Follows s (.error e) t

/-- Acts may come before an end. -/
theorem Acts.follows {outcome : Except RunError Status} (h : Acts s t)
    (ht : Follows t outcome u) : Follows s outcome u := by
  cases ht with
  | ended ht hstatus => exact .ended (h.trans ht) hstatus
  | failed ht hu => exact .failed (h.trans ht) hu
  | lost ht => exact .lost (h.deeds.trans ht)

theorem Follows.deeds {outcome : Except RunError Status} (h : Follows s outcome t) :
    Deeds s t := by
  cases h with
  | ended h hstatus => exact h.deeds
  | failed h h' => exact (h.deeds.tail (.inr ⟨_, rfl⟩)).trans h'.deeds
  | lost h => exact h

/-- What a run comes to that has failed, if its observers heard of that. -/
def failed : Bool × Session → Except RunError Status × Session
  | (true, s) => (.ok .failed, s)
  | (false, s) => (.error .observerFailed, s)

theorem fail_eq (e : ErrorRecord) (s : Session) :
    s.fail e = failed ((s.meanwhile.addError e).deliverBusy (.error e)) := rfl

/-- A failure is recorded and told of, and then the run ends. -/
theorem follows_fail (e : ErrorRecord) (s : Session) : Follows s (s.fail e).1 (s.fail e).2 := by
  have hnow := acts_surroundings.meanwhile s
  have hdeliver := acts_deliverBusy (s := s.meanwhile.addError e) (n := .error e)
    fun r hr => by cases hr
  rcases hd : (s.meanwhile.addError e).deliverBusy (.error e) with ⟨b, t⟩
  rw [hd] at hdeliver
  rw [fail_eq, hd]
  cases b with
  | true => exact .failed hnow hdeliver
  | false => exact .lost ((hnow.deeds.tail (.inr ⟨e, rfl⟩)).trans hdeliver.deeds)

/-- Every ending of a program ends the run. -/
theorem follows_settle (e : Ending) (s : Session) :
    Follows s (settle e s).1 (settle e s).2 := by
  cases e with
  | finished => exact .ended .refl (.inl rfl)
  | uncaught name message => exact follows_fail _ s
  | failed i => exact .lost .refl

theorem follows_conclude (p : Program) (outcome : Outcome Unit) (s : Session) :
    Follows s (conclude p outcome s).1 (conclude p outcome s).2 := by
  cases outcome with
  | done _ _ => exact .ended .refl (.inl rfl)
  | broke i w =>
    by_cases hstopped : i = .stopped
    · subst hstopped
      exact .ended .refl (.inr rfl)
    by_cases hdeep : i = .fault .nestingTooDeep
    · subst hdeep
      exact follows_fail _ s
    have hrest : conclude p (.broke i w) s =
        settle (endingOf p host i w s).1 (endingOf p host i w s).2 := by
      simp only [conclude]
    rw [hrest]
    exact (acts_endingOf p i w s).follows (follows_settle _ _)

/-- A program that was read is followed to its end, and a fault at once. -/
theorem follows_followRead (p : Except SyntaxFault Program) (s : Session) :
    Follows s (followRead p s).1 (followRead p s).2 := by
  cases p with
  | ok p => exact (acts_drive _ s).follows (follows_conclude p _ _)
  | error f => exact follows_fail _ s

/-- The session in which a run begins, for an engine that has been claimed. -/
def begun (o : Options) (s : Session) : Session :=
  (s.meanwhile.modifyState (·.start o.maxSteps)).engage o.observers

/-- A run begins, follows its program and is released. -/
theorem runClaimed_eq_release (p : Except SyntaxFault Program) (o : Options) (s : Session) :
    s.runClaimed p o = release (followRead p (s.begun o)).1 (followRead p (s.begun o)).2 := rfl

/-- What `execute` does with an engine that has been claimed. -/
def executeClaimed (source : String) (o : Options) (s : Session) :
    Except RunError Trace × Session :=
  match read source with
  | .error f => s.rejectClaimed f o
  | .ok p =>
    match Instrument.decorate "" p with
    | .ok text => s.runClaimed (read text) o
    | .error _ => s.abandonClaimed

theorem execute_eq (source : String) (o : Options) (s : Session) :
    s.execute source o = s.claimed o (executeClaimed source o) := by
  unfold execute
  congr 1

/-- Records are only ever added to. -/
structure Grows (s t : Session) : Prop where
  steps : s.state.record.steps <:+ t.state.record.steps
  console : s.state.record.console <:+ t.state.record.console

theorem Grows.refl (s : Session) : s.Grows s := ⟨List.suffix_rfl, List.suffix_rfl⟩

theorem Grows.trans (h : s.Grows t) (k : t.Grows u) : s.Grows u :=
  ⟨h.steps.trans k.steps, h.console.trans k.console⟩

/-- A session whose record is kept grows. -/
theorem grows_of_record (h : t.state.record = s.state.record) : s.Grows t :=
  ⟨h ▸ List.suffix_rfl, h ▸ List.suffix_rfl⟩

/-- No act takes anything from the record. -/
theorem Act.grows (h : Act s t) : s.Grows t := by
  cases h with
  | aside hstate hlog => exact grows_of_record (by rw [hstate])
  | control c => exact grows_of_record (State.record_apply s.state c)
  | wake c => exact grows_of_record (State.record_apply s.state c)
  | remark he => exact grows_of_record rfl
  | hear who n hn => exact grows_of_record rfl
  | pass id line hfree =>
    obtain ⟨-, hpass⟩ | ⟨-, -, hpass⟩ | ⟨-, -, hpass⟩ := s.state.pass_cases id line
    · exact grows_of_record (by rw [hpass])
    · exact grows_of_record (by rw [hpass])
    · rw [hpass]
      exact ⟨List.suffix_cons .., List.suffix_rfl⟩
  | record hf => exact ⟨hf.steps _ ▸ List.suffix_rfl, hf.console _⟩

/-- The record grows along deeds, by induction on them. -/
theorem Deeds.grows (h : Deeds s t) : s.Grows t := by
  induction h with
  | refl => exact .refl s
  | tail h hd ih =>
    rcases hd with hd | ⟨e, rfl⟩
    · exact ih.trans hd.grows
    · exact ih.trans ⟨List.suffix_rfl, List.suffix_rfl⟩

end Session
end Stepper.Engine
