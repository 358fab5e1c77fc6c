import Stepper.Proofs.Renewal

/-!
What is delivered is what is recorded. Each notice of a run is told to all who listen for it, one
after the other, and each telling is an entry of the log. If observers ask for nothing but controls,
nobody breaks a delivery off, and what comes between two tellings only steers the engine: it neither
records nor tells anything. So all that is heard in a run comes from a list of notices, each of them
told to everybody, and that list is what the run has recorded, in the same order.
-/
namespace Stepper.Engine

open Execution Machine Syntax

/-- Asks for nothing but controls. -/
def Observer.Calm (o : Observer) : Prop := ∀ n, ∀ r ∈ o.answer n, r.isControl = true

/-- An observer as it was before it heard anything. -/
def Observer.fresh (o : Observer) : Observer := { o with heard := 0 }

def Notice.step? : Notice → Option StepRecord
  | .step r => some r
  | _ => none

def Notice.console? : Notice → Option ConsoleRecord
  | .console r => some r
  | _ => none

def Notice.error? : Notice → Option ErrorRecord
  | .error r => some r
  | _ => none

def Entry.heard? : Entry → Option (String × Notice)
  | .heard who n => some (who, n)
  | _ => none

/-- From one state to another an engine is given some controls. -/
def State.Steered (x y : State) : Prop := ∃ cs : List Control, y = cs.foldl State.apply x

namespace State

variable {x y z : State}

theorem Steered.refl (x : State) : x.Steered x := ⟨[], rfl⟩

theorem Steered.trans (h : x.Steered y) (k : y.Steered z) : x.Steered z := by
  obtain ⟨cs, rfl⟩ := h
  obtain ⟨ds, rfl⟩ := k
  exact ⟨cs ++ ds, by rw [List.foldl_append]⟩

/-- A control steers the state. -/
theorem steered_apply (x : State) (c : Control) : x.Steered (x.apply c) := ⟨[c], rfl⟩

theorem Steered.record (h : x.Steered y) : y.record = x.record := by
  obtain ⟨cs, rfl⟩ := h
  induction cs generalizing x with
  | nil => rfl
  | cons c cs ih => exact (ih (x := x.apply c)).trans (record_apply x c)

/-- What has settled stays so under controls. -/
theorem Steered.settled (h : x.Steered y) (hx : x.Settled) : y.Settled := by
  obtain ⟨cs, rfl⟩ := h
  induction cs generalizing x with
  | nil => exact hx
  | cons c cs ih => exact ih (hx.apply c)

/-- An engine that loses every control cannot be steered. -/
theorem Steered.eq_of_lost (h : x.Steered y) (hlost : ∀ c, x.apply c = x) : y = x := by
  obtain ⟨cs, rfl⟩ := h
  induction cs with
  | nil => rfl
  | cons c cs ih => rw [List.foldl_cons, hlost c, ih]

end State

namespace Session

variable {s t u : Session} {hs ks : List (String × Notice)} {ns ms : List Notice}

/-- The observers of a session and which of them are told, apart from how much they have heard. -/
def cast (s : Session) : Array Observer × List Nat × List Nat :=
  (s.observers.map Observer.fresh, s.lasting, s.own)

def nameOf (s : Session) (i : Nat) : Option String := (s.observers[i]?).map (·.name)

/-- The names of those who are told of a channel, in the order in which they are told. -/
def hearers (s : Session) (c : Channel) : List String := (s.audience c).filterMap s.nameOf

/-- What is heard when notices are delivered to everybody who listens. -/
def told (s : Session) (ns : List Notice) : List (String × Notice) :=
  ns.flatMap fun n => (s.hearers n.channel).map (·, n)

/-- All that was heard so far, the first first. -/
def hearings (s : Session) : List (String × Notice) := (s.log.filterMap Entry.heard?).reverse

def CalmAt (s : Session) (i : Nat) : Prop := ∀ o, s.observers[i]? = some o → o.Calm

/-- All who can be told of anything ask for nothing but controls. -/
def Calm (s : Session) : Prop := ∀ i ∈ s.lasting ++ s.own, s.CalmAt i

theorem fresh_of_cast (h : t.cast = s.cast) (i : Nat) :
    (t.observers[i]?).map Observer.fresh = (s.observers[i]?).map Observer.fresh := by
  rw [← Array.getElem?_map, ← Array.getElem?_map]
  exact congrArg (·.1[i]?) h

theorem nameOf_of_cast (h : t.cast = s.cast) : t.nameOf = s.nameOf := by
  funext i
  have hname : (t.observers[i]?).map (fun o => o.fresh.name) =
      (s.observers[i]?).map fun o => o.fresh.name := by
    simpa [Function.comp_def] using congrArg (Option.map Observer.name) (fresh_of_cast h i)
  exact hname

theorem listensTo_of_cast (h : t.cast = s.cast) (c : Channel) : t.listensTo c = s.listensTo c := by
  funext i
  have hchannel : (t.observers[i]?).any (fun o => o.fresh.channel == c) =
      (s.observers[i]?).any fun o => o.fresh.channel == c := by
    simpa [Option.any_map, Function.comp_def] using
      congrArg (Option.any fun o : Observer => o.channel == c) (fresh_of_cast h i)
  exact hchannel

theorem hearers_of_cast (h : t.cast = s.cast) (c : Channel) : t.hearers c = s.hearers c := by
  have haudience : t.audience c = s.audience c := by
    have hlasting : t.lasting = s.lasting := congrArg (·.2.1) h
    have hown : t.own = s.own := congrArg (·.2.2) h
    rw [audience_eq, audience_eq, subscribers, subscribers, listensTo_of_cast h, hlasting, hown]
  unfold hearers
  rw [haudience, nameOf_of_cast h]

/-- Who is told what depends on the observers alone. -/
theorem told_of_cast (h : t.cast = s.cast) (ns : List Notice) : t.told ns = s.told ns := by
  unfold told
  simp only [hearers_of_cast h]

/-- Notices are told one after the other. -/
theorem told_append (s : Session) (ns ms : List Notice) :
    s.told (ns ++ ms) = s.told ns ++ s.told ms := List.flatMap_append ..

theorem CalmAt.of_cast {i : Nat} (hs : s.CalmAt i) (h : t.cast = s.cast) : t.CalmAt i := by
  intro o ho
  have hfresh : (s.observers[i]?).map Observer.fresh = some o.fresh := by
    rw [← fresh_of_cast h, ho]
    rfl
  obtain ⟨x, hx, hxo⟩ := Option.map_eq_some_iff.mp hfresh
  have hanswer : x.fresh.answer = o.fresh.answer := congrArg Observer.answer hxo
  intro n
  exact hanswer ▸ hs x hx n

/-- A session stays calm while its observers do. -/
theorem Calm.of_cast (hs : s.Calm) (h : t.cast = s.cast) : t.Calm := by
  have hlasting : t.lasting = s.lasting := congrArg (·.2.1) h
  have hown : t.own = s.own := congrArg (·.2.2) h
  intro i hi
  rw [hlasting, hown] at hi
  exact (hs i hi).of_cast h

@[simp] theorem cast_heardBy (s : Session) (i : Nat) : (s.heardBy i).cast = s.cast := by
  refine congrArg (·, s.lasting, s.own) (Array.ext_getElem? fun j => ?_)
  rw [Array.getElem?_map, Array.getElem?_map, observers_heardBy]
  split
  · cases s.observers[j]? <;> rfl
  · rfl

/-- From one session to another some notices are heard, and the engine is given some controls. -/
structure Tells (s : Session) (hs : List (String × Notice)) (t : Session) : Prop where
  cast : t.cast = s.cast
  hearings : t.hearings = s.hearings ++ hs
  steered : s.state.Steered t.state

theorem Tells.refl (s : Session) : Tells s [] s := ⟨rfl, by simp, .refl _⟩

/-- Tellings follow each other. -/
theorem Tells.trans (h : Tells s hs t) (k : Tells t ks u) : Tells s (hs ++ ks) u :=
  ⟨k.cast.trans h.cast, by rw [k.hearings, h.hearings, List.append_assoc],
    h.steered.trans k.steered⟩

/-- Before it is told anything a session may come to another in silence. -/
theorem Tells.after (k : Tells t ks u) (h : Tells s [] t) : Tells s ks u := h.trans k

theorem tells_control (s : Session) (c : Control) {e : Entry} (he : e.heard? = none) :
    Tells s [] ((s.control c).note e) :=
  ⟨rfl, by simp [Session.hearings, note, control, modifyState, he], State.steered_apply _ c⟩

theorem tells_foldl_wake (s : Session) (cs : List Control) : Tells s [] (cs.foldl wake s) := by
  induction cs generalizing s with
  | nil => exact .refl s
  | cons c cs ih => exact (ih _).after (tells_control s c rfl)

/-- Others tell nobody anything. -/
theorem tells_meanwhile (s : Session) : Tells s [] s.meanwhile := by
  unfold meanwhile
  cases s.others with
  | nil => exact .refl s
  | cons cs others =>
    have hrest : Tells s [] { s with others } := ⟨rfl, by simp [Session.hearings], .refl _⟩
    exact (tells_foldl_wake _ cs).after hrest

theorem tells_await (s : Session) (wakes : List Control) : Tells s [] (s.await wakes) := by
  have hrest (s : Session) (wakes : List Control) : Tells s [] { s with wakes } :=
    ⟨rfl, by simp [Session.hearings], .refl _⟩
  induction wakes generalizing s with
  | nil =>
    unfold await
    split
    · exact hrest s []
    · exact (hrest _ []).after (tells_control s .resume rfl)
  | cons c wakes ih =>
    unfold await
    split
    · exact hrest s (c :: wakes)
    · exact ((ih _).after (tells_meanwhile _)).after (tells_control s c rfl)

section

variable (launch : Program → Session → Session)

/-- Controls are served to the last. -/
theorem tells_serve (rs : List Request) (hrs : ∀ r ∈ rs, r.isControl = true) (s : Session) :
    ∃ t, serve launch rs s = (true, t) ∧ Tells s [] t := by
  induction rs generalizing s with
  | nil => exact ⟨s, rfl, .refl s⟩
  | cons r rs ih =>
    have hr : r.isControl = true := hrs r (by simp)
    cases r with
    | control c =>
      obtain ⟨t, ht, htells⟩ := ih (fun q hq => hrs q (by simp [hq]))
        ((s.control c).note (.controlled c (s.control c).state.reading))
      exact ⟨t, ht, htells.after (tells_control s c rfl)⟩
    | launch l p => cases hr
    | fail => cases hr

/-- A calm observer is told and raises nothing. -/
theorem CalmAt.tell {i : Nat} (h : s.CalmAt i) (n : Notice) :
    ∃ t, Session.tell launch n i s = (true, t) ∧
      Tells s ((s.nameOf i).toList.map (·, n)) t := by
  unfold nameOf
  cases ho : s.observers[i]? with
  | none => exact ⟨s, by simp [Session.tell, ho], .refl s⟩
  | some o =>
    have hheard : Tells s [(o.name, n)] ((s.heardBy i).note (.heard o.name n)) :=
      ⟨cast_heardBy s i, by simp [Session.hearings, note, heardBy, Entry.heard?], .refl _⟩
    obtain ⟨t, ht, htells⟩ := tells_serve launch _ (h o ho (o.heard + 1)) _
    exact ⟨t, (tell_eq ho).trans ht, hheard.trans htells⟩

/-- All that listen are told, in order. -/
theorem tells_tellAll (n : Notice) (is : List Nat) (h : ∀ i ∈ is, s.CalmAt i) :
    ∃ t, tellAll launch n is s = (true, t) ∧
      Tells s ((is.filterMap s.nameOf).map (·, n)) t := by
  induction is generalizing s with
  | nil => exact ⟨s, rfl, .refl s⟩
  | cons i is ih =>
    have hnow := tells_meanwhile s
    obtain ⟨m, hm, hfirst⟩ := ((h i (by simp)).of_cast hnow.cast).tell launch n
    have hcast : m.cast = s.cast := hfirst.cast.trans hnow.cast
    obtain ⟨t, ht, hrest⟩ := ih fun j hj => (h j (by simp [hj])).of_cast hcast
    refine ⟨t, by simpa only [tellAll, hm] using ht, ?_⟩
    have hall := (hfirst.trans hrest).after hnow
    rw [nameOf_of_cast hnow.cast, nameOf_of_cast hcast] at hall
    cases ho : s.nameOf i with
    | none => simpa [ho] using hall
    | some who => simpa [ho] using hall

/-- A notice is told to all who listen. -/
theorem Calm.deliver (h : s.Calm) (n : Notice) :
    ∃ t, Session.deliver launch n s = (true, t) ∧ Tells s (s.told [n]) t := by
  obtain ⟨t, ht, htells⟩ := tells_tellAll launch n (s.audience n.channel)
    fun i hi => h i (List.mem_filter.mp hi).1
  exact ⟨t, ht, by simpa [told, hearers] using htells⟩

end

/-- From one session to another some notices are delivered to everybody, and they are recorded. -/
structure Delivers (s : Session) (ns : List Notice) (t : Session) : Prop where
  cast : t.cast = s.cast
  hearings : t.hearings = s.hearings ++ s.told ns
  steps : t.state.record.steps = (ns.filterMap Notice.step?).reverse ++ s.state.record.steps
  console : t.state.record.console =
    (ns.filterMap Notice.console?).reverse ++ s.state.record.console
  errors : t.state.record.errors = (ns.filterMap Notice.error?).reverse ++ s.state.record.errors

/-- Deliveries follow each other. -/
theorem Delivers.trans (h : Delivers s ns t) (k : Delivers t ms u) : Delivers s (ns ++ ms) u where
  cast := k.cast.trans h.cast
  hearings := by
    rw [k.hearings, h.hearings, told_of_cast h.cast, told_append, List.append_assoc]
  steps := by simp [k.steps, h.steps]
  console := by simp [k.console, h.console]
  errors := by simp [k.errors, h.errors]

/-- Where nobody is told anything, nothing is recorded. -/
theorem Tells.delivers (h : Tells s [] t) : Delivers s [] t where
  cast := h.cast
  hearings := h.hearings
  steps := by simp [h.steered.record]
  console := by simp [h.steered.record]
  errors := by simp [h.steered.record]

/-- A notice is recorded and then told. -/
theorem Calm.delivers (h : s.Calm) (n : Notice) {x : State}
    (hsteps : x.record.steps = n.step?.toList ++ s.state.record.steps)
    (hconsole : x.record.console = n.console?.toList ++ s.state.record.console)
    (herrors : x.record.errors = n.error?.toList ++ s.state.record.errors) :
    ∃ t, ({ s with state := x } : Session).deliverBusy n = (true, t) ∧ Delivers s [n] t := by
  have hx : ({ s with state := x } : Session).Calm := h
  obtain ⟨t, ht, htells⟩ := hx.deliver (fun _ s => s) n
  refine ⟨t, ht, htells.cast, htells.hearings, ?_, ?_, ?_⟩ <;> rw [htells.steered.record]
  · rw [hsteps]
    cases n <;> rfl
  · rw [hconsole]
    cases n <;> rfl
  · rw [herrors]
    cases n <;> rfl

/-- What does not touch the log and adds no record is delivered to nobody. -/
theorem delivers_nothing (hcast : t.cast = s.cast) (hlog : t.log = s.log)
    (hsteps : t.state.record.steps = s.state.record.steps)
    (hconsole : t.state.record.console = s.state.record.console)
    (herrors : t.state.record.errors = s.state.record.errors) : Delivers s [] t :=
  ⟨hcast, by simp [Session.hearings, told, hlog], hsteps, hconsole, herrors⟩

theorem Delivers.refl (s : Session) : Delivers s [] s := (Tells.refl s).delivers

/-- Some notices are delivered between two sessions. -/
def Delivering (s t : Session) : Prop := ∃ ns, Delivers s ns t

theorem Delivering.trans (h : Delivering s t) (k : Delivering t u) : Delivering s u := by
  obtain ⟨ns, hns⟩ := h
  obtain ⟨ms, hms⟩ := k
  exact ⟨ns ++ ms, hns.trans hms⟩

/-- A session stays calm while it delivers. -/
theorem Calm.delivering (h : s.Calm) (k : Delivering s t) : t.Calm := by
  obtain ⟨ns, hns⟩ := k
  exact h.of_cast hns.cast

theorem Tells.delivering (h : Tells s [] t) : Delivering s t := ⟨[], h.delivers⟩

/-- A step delivers its record and no more. -/
theorem Calm.step (h : s.Calm) (id line : Int) : Delivering s (s.step id line).2 := by
  unfold Session.step
  cases s.state.running with
  | false => exact ⟨[], .refl s⟩
  | true =>
    have hlet := tells_await s s.wakes
    have hcalm := h.of_cast hlet.cast
    refine hlet.delivering.trans ?_
    simp only [Bool.not_true, Bool.false_eq_true, ↓reduceIte]
    generalize s.await s.wakes = m at hcalm
    obtain ⟨-, hpass⟩ | ⟨-, -, hpass⟩ | ⟨-, -, hpass⟩ := m.state.pass_cases id line
    · rw [hpass]
      exact ⟨[], .refl m⟩
    · rw [hpass]
      exact ⟨[], delivers_nothing rfl rfl rfl rfl rfl⟩
    · rw [hpass]
      obtain ⟨t, ht, hdelivers⟩ := hcalm.delivers (.step (m.state.record.nextStep id line))
        (x := { m.state with allowance := false, record := m.state.record.addStep id line })
        rfl rfl rfl
      simp only [ht, snd_reply]
      exact ⟨_, hdelivers⟩

/-- The console delivers its message and no more. -/
theorem Calm.write (h : s.Calm) (kind : ConsoleKind) (message : Text) :
    Delivering s (s.write kind message).2 := by
  obtain ⟨t, ht, hdelivers⟩ := h.delivers (.console ⟨kind, message⟩)
    (x := { s.state with record := s.state.record.write ⟨kind, message⟩ }) rfl rfl rfl
  unfold Session.write modifyState
  simp only [ht, snd_reply]
  exact ⟨_, hdelivers⟩

theorem delivering_takeDown (s : Session) (c : Call) : Delivering s (s.takeDown c).2 := by
  unfold takeDown
  cases hf : recording c with
  | error f => exact ⟨[], .refl s⟩
  | ok f =>
    obtain ⟨_, _, _, _, hr⟩ := recording_eq hf s.state.record
    refine ⟨[], delivers_nothing rfl rfl ?_ ?_ ?_⟩ <;> simp [modifyState, hr]

/-- Whatever the program tells, what is recorded of it is delivered. -/
theorem Calm.hear (h : s.Calm) (c : Call) : Delivering s (Session.hear c s).2 := by
  have hnow := tells_meanwhile s
  have hcalm := h.of_cast hnow.cast
  refine hnow.delivering.trans ?_
  cases c with
  | step id line => exact hcalm.step id line
  | console kind m =>
    cases m with
    | text message => exact hcalm.write kind message
    | values heap room vs => exact delivering_takeDown _ _
  | _ => exact delivering_takeDown _ _

/-- What a course delivers is what it adds to the record, by induction on the course. -/
theorem Calm.drive {α : Type} (h : s.Calm) (x : Course α) : Delivering s (x.drive host s).2 := by
  induction x generalizing s with
  | done a w => exact ⟨[], .refl s⟩
  | broke i w => exact ⟨[], .refl s⟩
  | tell c w next ih =>
    have hhear := h.hear c
    exact hhear.trans (ih _ (h.delivering hhear))

theorem Calm.endingOf (h : s.Calm) (p : Program) (i : Interrupt) (w : World) :
    Delivering s (Execution.endingOf p host i w s).2 := by
  unfold Execution.endingOf
  cases details p host.wantsText i w with
  | none => exact ⟨[], .refl s⟩
  | some x =>
    have hx := h.drive x
    rcases hd : x.drive host s with ⟨a, t⟩
    rw [hd] at hx
    simp only [hd]
    cases a with
    | done d w => exact hx
    | broke i w => exact hx

/-- A failure delivers its error. -/
theorem Calm.fail (h : s.Calm) (e : ErrorRecord) : Delivering s (s.fail e).2 := by
  have hnow := tells_meanwhile s
  obtain ⟨t, ht, hdelivers⟩ := (h.of_cast hnow.cast).delivers (.error e)
    (x := { s.meanwhile.state with record := s.meanwhile.state.record.addError e }) rfl rfl rfl
  refine hnow.delivering.trans ⟨[.error e], ?_⟩
  rw [fail_eq]
  unfold Session.addError modifyState
  rw [ht]
  exact hdelivers

theorem Calm.settle (h : s.Calm) (e : Ending) : Delivering s (Session.settle e s).2 := by
  cases e with
  | finished => exact ⟨[], .refl s⟩
  | uncaught name message => exact h.fail _
  | failed i => exact ⟨[], .refl s⟩

/-- The end of a program delivers what it records. -/
theorem Calm.conclude (h : s.Calm) (p : Program) (outcome : Outcome Unit) :
    Delivering s (Session.conclude p outcome s).2 := by
  cases outcome with
  | done _ _ => exact ⟨[], .refl s⟩
  | broke i w =>
    by_cases hstopped : i = .stopped
    · subst hstopped
      exact ⟨[], .refl s⟩
    by_cases hdeep : i = .fault .nestingTooDeep
    · subst hdeep
      exact h.fail _
    have hrest : Session.conclude p (.broke i w) s =
        Session.settle (Execution.endingOf p host i w s).1 (Execution.endingOf p host i w s).2 := by
      simp only [Session.conclude]
    have hending := h.endingOf p i w
    rw [hrest]
    exact hending.trans ((h.delivering hending).settle _)

/-- All that a run records is delivered. -/
theorem Calm.followRead (h : s.Calm) (p : Except SyntaxFault Program) :
    Delivering s (Session.followRead p s).2 := by
  cases p with
  | error f => exact h.fail _
  | ok p =>
    have hrun : Delivering s (run p host s).2 := h.drive _
    exact hrun.trans ((h.delivering hrun).conclude p _)

end Session
end Stepper.Engine
