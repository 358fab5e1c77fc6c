import Stepper.Proofs.Congruence
import Stepper.Proofs.Control

/-!
Pausing never changes a run. Observers and others may pause, resume and step forward as they like,
between any two acts of a run, while it is held, and after its last step. Two sessions are alike if
nobody in them ends a run or breaks it off and their engines have the same essence. All that
observers and others do leads from a session to one alike; all that a run does takes sessions that
are alike to sessions that are alike, with one reply for each call and one result in the end.
-/
namespace Stepper.Engine

open Execution Machine Syntax

/-- A request that neither ends a run nor breaks it off. -/
def Request.Mild : Request → Prop
  | .control c => c.Mild
  | .launch _ _ => True
  | .fail => False

def Observer.Mild (o : Observer) : Prop := ∀ n, ∀ r ∈ o.answer n, r.Mild

/-- Options for one and the same run, with observers that neither stop it nor fail. -/
structure Options.Alike (o o' : Options) : Prop where
  speed : o.speed = o'.speed
  maxSteps : o.maxSteps = o'.maxSteps
  mild_left : ∀ x ∈ o.observers, x.Mild
  mild_right : ∀ x ∈ o'.observers, x.Mild

namespace Session

/-- Nobody stops a run, and no observer fails. -/
structure Mild (s : Session) : Prop where
  observers : ∀ o ∈ s.observers, o.Mild
  wakes : ∀ c ∈ s.wakes, c.Mild
  others : ∀ cs ∈ s.others, ∀ c ∈ cs, c.Mild

/-- Sessions whose engines differ in nothing but pausing. -/
structure Alike (s t : Session) : Prop where
  mild_left : s.Mild
  mild_right : t.Mild
  essence : s.state.essence = t.state.essence

variable {s t u : Session}

/-- A session in which nobody stops anything is like itself. -/
theorem Mild.alike (h : s.Mild) : s.Alike s := ⟨h, h, rfl⟩

theorem Alike.symm (h : s.Alike t) : t.Alike s := ⟨h.mild_right, h.mild_left, h.essence.symm⟩

theorem Alike.trans (h : s.Alike t) (k : t.Alike u) : s.Alike u :=
  ⟨h.mild_left, k.mild_right, h.essence.trans k.essence⟩

/-- What keeps sessions alike on both sides keeps them alike. -/
theorem Alike.between {s' t' : Session} (h : s.Alike t) (hs : s.Alike s') (ht : t.Alike t') :
    s'.Alike t' := (hs.symm.trans h).trans ht

theorem Alike.running (h : s.Alike t) : s.state.running = t.state.running := by
  have := congrArg State.running h.essence
  simpa using this

theorem Alike.busy (h : s.Alike t) : s.state.busy = t.state.busy := by
  have := congrArg State.busy h.essence
  simpa using this

theorem Alike.stopRequested (h : s.Alike t) : s.state.stopRequested = t.state.stopRequested := by
  have := congrArg State.stopRequested h.essence
  simpa using this

/-- Sessions that are alike have one record. -/
theorem Alike.record (h : s.Alike t) : s.state.record = t.state.record := by
  have := congrArg State.record h.essence
  simpa using this

/-- Whoever acts stays the same when the state is changed. -/
theorem Mild.modifyState (h : s.Mild) (f : State → State) : (s.modifyState f).Mild :=
  ⟨h.observers, h.wakes, h.others⟩

/-- States may be changed on both sides, if what is left without the pauses agrees. -/
theorem Alike.modifyState (h : s.Alike t) (f g : State → State)
    (hfg : (f s.state).essence = (g t.state).essence) :
    (s.modifyState f).Alike (t.modifyState g) :=
  ⟨h.mild_left.modifyState f, h.mild_right.modifyState g, hfg⟩

theorem Alike.modifyRecord (h : s.Alike t) (f : Record → Record) :
    (s.modifyState fun e => { e with record := f e.record }).Alike
      (t.modifyState fun e => { e with record := f e.record }) :=
  h.modifyState _ _ (congrArg (fun e : State => { e with record := f e.record }) h.essence)

theorem Alike.note (h : s.Alike t) (e : Entry) : s.Alike (t.note e) :=
  ⟨h.mild_left, ⟨h.mild_right.observers, h.mild_right.wakes, h.mild_right.others⟩, h.essence⟩

/-- Pauses leave a session like what it was. -/
theorem Mild.alike_control (h : s.Mild) {c : Control} (hc : c.Mild) : s.Alike (s.control c) :=
  ⟨h, h.modifyState _, (State.essence_apply hc s.state).symm⟩

theorem Mild.alike_wake (h : s.Mild) {c : Control} (hc : c.Mild) : s.Alike (s.wake c) :=
  (h.alike_control hc).note _

theorem Mild.alike_foldl_wake (h : s.Mild) (cs : List Control) (hcs : ∀ c ∈ cs, c.Mild) :
    s.Alike (cs.foldl wake s) := by
  induction cs generalizing s with
  | nil => exact h.alike
  | cons c cs ih =>
    have hc := h.alike_wake (hcs c (by simp))
    exact hc.trans (ih hc.mild_right fun d hd => hcs d (by simp [hd]))

/-- To take what others do off the tape. -/
theorem Mild.alike_others (h : s.Mild) {cs : List Control} {others : List (List Control)}
    (ho : s.others = cs :: others) : (∀ c ∈ cs, c.Mild) ∧ s.Alike { s with others } := by
  have hothers : ∀ ds ∈ cs :: others, ∀ c ∈ ds, c.Mild := ho ▸ h.others
  exact ⟨hothers cs (by simp), h, ⟨h.observers, h.wakes, fun ds hds => hothers ds (by simp [hds])⟩,
    rfl⟩

/-- So does whatever others do meanwhile. -/
theorem Mild.alike_meanwhile (h : s.Mild) : s.Alike s.meanwhile := by
  unfold meanwhile
  cases ho : s.others with
  | nil => exact h.alike
  | cons cs others =>
    obtain ⟨hcs, hrest⟩ := h.alike_others ho
    exact hrest.trans (hrest.mild_right.alike_foldl_wake cs hcs)

/-- A run that is held is let go in the end. -/
theorem isHeld_await (s : Session) (wakes : List Control) :
    (s.await wakes).state.isHeld = false := by
  induction wakes generalizing s with
  | nil =>
    unfold await
    split
    · next hfree => simpa using hfree
    · exact State.isHeld_resume s.state
  | cons c wakes ih =>
    unfold await
    split
    · next hfree => simpa using hfree
    · exact ih _

/-- However a run is let go, it is let go as it was. -/
theorem Mild.alike_await (h : s.Mild) (wakes : List Control) (hw : ∀ c ∈ wakes, c.Mild) :
    s.Alike (s.await wakes) := by
  induction wakes generalizing s with
  | nil =>
    unfold await
    split
    · exact ⟨h, ⟨h.observers, hw, h.others⟩, rfl⟩
    · have hresume := h.alike_wake (show Control.resume.Mild by simp [Control.Mild])
      exact ⟨h, ⟨hresume.mild_right.observers, by simp, hresume.mild_right.others⟩,
        hresume.essence⟩
  | cons c wakes ih =>
    unfold await
    split
    · exact ⟨h, ⟨h.observers, hw, h.others⟩, rfl⟩
    · have hc := h.alike_wake (hw c (by simp))
      have hbatch := hc.trans hc.mild_right.alike_meanwhile
      exact hbatch.trans (ih hbatch.mild_right fun d hd => hw d (by simp [hd]))

/-- A property of sessions in which nobody stops a run or fails, and which pausing cannot change. -/
structure Steady (P : Session → Prop) : Prop where
  mild : ∀ s, P s → s.Mild
  keeps : ∀ s t, P s → s.Alike t → P t

theorem steady_mild : Steady Mild := ⟨fun _ h => h, fun _ _ _ h => h.mild_right⟩

/-- To be alike is kept by everything that happens. -/
theorem steady_alike (s : Session) : Steady s.Alike :=
  ⟨fun _ h => h.mild_right, fun _ _ h k => h.trans k⟩

section

variable {P : Session → Prop} {launch : Program → Session → Session}

/-- Requests that do not fail are all served. -/
theorem Steady.serve (hP : Steady P) (hl : ∀ p s, P s → P (launch p s)) (rs : List Request)
    (hrs : ∀ r ∈ rs, r.Mild) (h : P s) :
    (serve launch rs s).1 = true ∧ P (serve launch rs s).2 := by
  induction rs generalizing s with
  | nil => exact ⟨rfl, h⟩
  | cons r rs ih =>
    have hrest : ∀ q ∈ rs, q.Mild := fun q hq => hrs q (by simp [hq])
    have hr : r.Mild := hrs r (by simp)
    cases r with
    | control c =>
      have hc := (hP.mild s h).alike_control (show c.Mild from hr)
      exact ih hrest (hP.keeps s _ h (hc.note _))
    | launch l p =>
      unfold Session.serve
      split
      · exact ih hrest (hP.keeps s _ h ((hP.mild s h).alike.note _))
      · have hp : P (launch p s) := hl p s h
        exact ih hrest (hP.keeps _ _ hp ((hP.mild _ hp).alike.note _))
    | fail => exact hr.elim

/-- It does not matter what observers have heard. -/
theorem Mild.alike_heard (h : s.Mild) (i : Nat) :
    s.Alike { s with
      observers := s.observers.modify i fun o => { o with heard := o.heard + 1 } } := by
  refine ⟨h, ⟨fun o ho => ?_, h.wakes, h.others⟩, rfl⟩
  obtain ⟨j, hj, rfl⟩ := Array.mem_iff_getElem.mp ho
  have hlt : j < s.observers.size := by simpa using hj
  have hmem := h.observers s.observers[j] (Array.getElem_mem hlt)
  rw [Array.getElem_modify]
  split
  · exact hmem
  · exact hmem

/-- An observer that is told keeps what is steady, and nothing is raised. -/
theorem Steady.tell (hP : Steady P) (hl : ∀ p s, P s → P (launch p s)) (n : Notice) (i : Nat)
    (h : P s) : (tell launch n i s).1 = true ∧ P (tell launch n i s).2 := by
  unfold Session.tell
  cases ho : s.observers[i]? with
  | none => exact ⟨rfl, h⟩
  | some o =>
    have hs := hP.mild s h
    have hmild : o.Mild := hs.observers o (Array.mem_of_getElem? ho)
    exact hP.serve hl _ (hmild _) (hP.keeps s _ h ((hs.alike_heard i).note _))

/-- So do all observers, one after the other. -/
theorem Steady.tellAll (hP : Steady P) (hl : ∀ p s, P s → P (launch p s)) (n : Notice)
    (is : List Nat) (h : P s) : (tellAll launch n is s).1 = true ∧ P (tellAll launch n is s).2 := by
  induction is generalizing s with
  | nil => exact ⟨rfl, h⟩
  | cons i is ih =>
    have hs : P s.meanwhile := hP.keeps s _ h (hP.mild s h).alike_meanwhile
    obtain ⟨htrue, hkept⟩ := hP.tell hl n i hs
    unfold Session.tellAll
    rcases ht : Session.tell launch n i s.meanwhile with ⟨b, t⟩
    rw [ht] at htrue hkept
    simp only at htrue hkept
    subst htrue
    exact ih hkept

theorem Steady.deliver (hP : Steady P) (hl : ∀ p s, P s → P (launch p s)) (n : Notice) (h : P s) :
    (deliver launch n s).1 = true ∧ P (deliver launch n s).2 :=
  hP.tellAll hl n _ h

end

/-- A notice is delivered, and the session is like what it was. -/
theorem Mild.deliverBusy (h : s.Mild) (n : Notice) :
    ∃ t, s.deliverBusy n = (true, t) ∧ s.Alike t := by
  have hdeliver : (s.deliverBusy n).1 = true ∧ s.Alike (s.deliverBusy n).2 :=
    (steady_alike s).deliver (fun _ _ k => k) n h.alike
  exact ⟨(s.deliverBusy n).2, Prod.ext hdeliver.1 rfl, hdeliver.2⟩

theorem Alike.meanwhile (h : s.Alike t) : s.meanwhile.Alike t.meanwhile :=
  h.between h.mild_left.alike_meanwhile h.mild_right.alike_meanwhile

/-- Deliveries do not see pauses. -/
theorem blind_deliverBusy (n : Notice) : Blind Alike fun s => s.deliverBusy n := by
  intro s t h
  obtain ⟨s', hs, hs'⟩ := h.mild_left.deliverBusy n
  obtain ⟨t', ht, ht'⟩ := h.mild_right.deliverBusy n
  simp only [hs, ht]
  exact ⟨trivial, h.between hs' ht'⟩

/-- Steps do not see pauses. -/
theorem blind_step (id line : Int) : Blind Alike (step id line) := by
  intro s t h
  unfold step
  rw [h.running]
  cases t.state.running with
  | false => exact ⟨rfl, h⟩
  | true =>
    have hlet : (s.await s.wakes).Alike (t.await t.wakes) :=
      h.between (h.mild_left.alike_await _ h.mild_left.wakes)
        (h.mild_right.alike_await _ h.mild_right.wakes)
    simp only [Bool.not_true, Bool.false_eq_true, ↓reduceIte]
    generalize s.await s.wakes = s at hlet
    generalize t.await t.wakes = t at hlet
    obtain ⟨hverdict, hessence⟩ := State.pass_alike hlet.essence id line
    rw [hlet.record]
    rcases hs : s.state.pass id line with ⟨b, x⟩
    rcases ht : t.state.pass id line with ⟨b', y⟩
    rw [hs, ht] at hverdict hessence
    obtain rfl : b = b' := hverdict
    have hpassed : Alike { s with state := x } { t with state := y } :=
      hlet.modifyState (fun _ => x) (fun _ => y) hessence
    cases b with
    | false => exact ⟨rfl, hpassed⟩
    | true => exact (blind_deliverBusy _).reply _ _ hpassed

/-- Sessions that are alike cannot be told apart by a run. -/
theorem indistinct_alike : Indistinct Alike where
  record _ _ h := h.record
  meanwhile _ _ h := h.meanwhile
  modifyRecord f _ _ h := h.modifyRecord f
  deliverBusy := blind_deliverBusy
  step := blind_step

/-- Nothing changes in a session at rest. -/
theorem Mild.state_foldl_wake (h : s.Mild) (hrest : s.state.AtRest) (cs : List Control)
    (hcs : ∀ c ∈ cs, c.Mild) : (cs.foldl wake s).state = s.state := by
  induction cs generalizing s with
  | nil => rfl
  | cons c cs ih =>
    have hc : c.Mild := hcs c (by simp)
    have hstate : (s.wake c).state = s.state := hrest.apply hc
    rw [List.foldl_cons, ih (h.alike_wake hc).mild_right (hstate ▸ hrest)
      fun d hd => hcs d (by simp [hd]), hstate]

/-- Controls that come after a run are lost. -/
theorem Mild.state_meanwhile (h : s.Mild) (hrest : s.state.AtRest) :
    s.meanwhile.state = s.state := by
  unfold meanwhile
  cases ho : s.others with
  | nil => rfl
  | cons cs others =>
    obtain ⟨hcs, hothers⟩ := h.alike_others ho
    exact hothers.mild_right.state_foldl_wake hrest cs hcs

theorem Alike.finish (h : s.Alike t) (status : Status) :
    (s.modifyState (·.finish status)).Alike (t.modifyState (·.finish status)) :=
  h.modifyState _ _
    (congrArg (fun e : State => { e with running := false, busy := false }) h.essence)

/-- A session is released alike. -/
theorem blind_release (outcome : Except RunError Status) : Blind Alike (release outcome) := by
  intro s t h
  have hnow := h.meanwhile
  cases outcome with
  | error e => exact ⟨rfl, hnow.finish .failed⟩
  | ok status =>
    have hdone := hnow.finish status
    have hrecord := hdone.meanwhile.record
    have hs := hdone.mild_left.state_meanwhile (State.atRest_finish _ _)
    have ht := hdone.mild_right.state_meanwhile (State.atRest_finish _ _)
    have hstatus : (s.meanwhile.state.finish status).status =
        (t.meanwhile.state.finish status).status := by
      simp only [State.finish, State.finalStatus, hnow.stopRequested]
    refine ⟨?_, hdone.meanwhile⟩
    simp only [release]
    rw [hrecord, hs, ht]
    exact congrArg (fun x => Except.ok (Record.trace _ x)) hstatus

/-- Observers that stop nothing may join on both sides. -/
theorem Alike.engage (h : s.Alike t) {os os' : List Observer} (hs : ∀ o ∈ os, o.Mild)
    (ht : ∀ o ∈ os', o.Mild) : (s.engage os).Alike (t.engage os') := by
  refine ⟨⟨fun o ho => ?_, h.mild_left.wakes, h.mild_left.others⟩,
    ⟨fun o ho => ?_, h.mild_right.wakes, h.mild_right.others⟩, h.essence⟩
  · rcases Array.mem_append.mp ho with ho | ho
    · exact h.mild_left.observers o ho
    · exact hs o (by simpa using ho)
  · rcases Array.mem_append.mp ho with ho | ho
    · exact h.mild_right.observers o ho
    · exact ht o (by simpa using ho)

theorem Alike.runClaimed (h : s.Alike t) {o o' : Options} (ho : o.Alike o')
    (p : Except SyntaxFault Program) :
    (s.runClaimed p o).1 = (t.runClaimed p o').1 ∧
      (s.runClaimed p o).2.Alike (t.runClaimed p o').2 := by
  have hstart : (s.meanwhile.modifyState (·.start o.maxSteps)).Alike
      (t.meanwhile.modifyState (·.start o'.maxSteps)) := by
    refine h.meanwhile.modifyState _ _ ?_
    rw [ho.maxSteps]
    exact congrArg (fun e : State => { e with
      running := !e.stopRequested, maxSteps := o'.maxSteps, record := {} }) h.meanwhile.essence
  exact (indistinct_alike.followRead p).andThen blind_release _ _ (hstart.engage ho.mild_left ho.mild_right)

/-- What a claim lets happen happens to sessions that are alike. -/
theorem Alike.claimed {α : Type} (h : s.Alike t) {o o' : Options} (ho : o.Alike o')
    {f g : Session → Except RunError α × Session}
    (hfg : ∀ s t : Session, s.Alike t → (f s).1 = (g t).1) :
    (s.claimed o f).1 = (t.claimed o' g).1 := by
  unfold Session.claimed
  rw [ho.speed]
  split
  · rfl
  · unfold State.claim?
    rw [h.busy]
    cases t.state.busy with
    | true => rfl
    | false =>
      exact hfg _ _ (h.modifyState (fun e => { e with busy := true, stopRequested := false })
        (fun e => { e with busy := true, stopRequested := false })
        (congrArg (fun e : State => { e with busy := true, stopRequested := false }) h.essence))

/-- A run on the side leaves a session in which nobody stops a run or fails. -/
theorem Mild.launch (h : s.Mild) (p : Program) : (launch p s).Mild := by
  have ho : Options.Alike {} {} := ⟨rfl, rfl, by simp, by simp⟩
  unfold Session.launch Session.claimed
  split
  · exact h
  · split
    · exact h
    · next state _ =>
      exact ((h.modifyState fun _ => state).alike.runClaimed ho _).2.mild_left

/-- A source that cannot be read is reported as such, whatever is done on hearing of it. -/
theorem Mild.rejectClaimed (h : s.Mild) (f : SyntaxFault) {o : Options}
    (ho : ∀ x ∈ o.observers, x.Mild) : (s.rejectClaimed f o).1 = .error (.unreadable f) := by
  have hstart : ∀ g, ((s.meanwhile.modifyState g).engage o.observers).Mild := fun g =>
    ((h.alike_meanwhile.mild_right.modifyState g).alike.engage ho ho).mild_left
  have hdeliver : ∀ s : Session, s.Mild →
      (deliver Session.launch (.error (.ofFault f)) s).1 = true :=
    fun s hs => (steady_mild.deliver (fun p t ht => ht.launch p) _ hs).1
  have htrue := hdeliver _ (hstart fun t => { t.reset o.maxSteps with
    record := ({} : Record).addError (.ofFault f), status := .failed, busy := false })
  simp only [Session.rejectClaimed]
  split
  · rfl
  · next hfalse =>
    rw [hfalse] at htrue
    exact absurd htrue (by simp)

/-- A source comes to the same in sessions that are alike. -/
theorem Alike.execute (h : s.Alike t) {o o' : Options} (ho : o.Alike o') (source : String) :
    (s.execute source o).1 = (t.execute source o').1 := by
  refine h.claimed ho fun s t h => ?_
  cases read source with
  | error f =>
    exact (h.mild_left.rejectClaimed f ho.mild_left).trans
      (h.mild_right.rejectClaimed f ho.mild_right).symm
  | ok p =>
    dsimp only
    cases Instrument.decorate "" p with
    | ok text => exact (h.runClaimed ho (read text)).1
    | error e => rfl

theorem Alike.executeDecorated (h : s.Alike t) {o o' : Options} (ho : o.Alike o')
    (source : String) : (s.executeDecorated source o).1 = (t.executeDecorated source o').1 :=
  h.claimed ho fun _ _ h => (h.runClaimed ho _).1

end Session

def Request.isControl : Request → Bool
  | .control _ => true
  | .launch _ _ => false
  | .fail => false

/-- An observer that gives no controls, and does everything else that it did. -/
def Observer.quiet (o : Observer) : Observer :=
  { o with answer := fun n => (o.answer n).filter fun r => !r.isControl }

def Options.quiet (o : Options) : Options := { o with observers := o.observers.map Observer.quiet }

/-- A session in which nobody gives any controls. -/
def Session.quiet (s : Session) : Session :=
  { s with observers := s.observers.map Observer.quiet, wakes := [], others := [] }

/-- An observer without its requests stops nothing. -/
theorem Observer.Mild.quiet {o : Observer} (h : o.Mild) : o.quiet.Mild :=
  fun n r hr => h n r (List.mem_filter.mp hr).1

/-- A session is like itself without any controls. -/
theorem Session.Mild.alike_quiet {s : Session} (h : s.Mild) : s.Alike s.quiet := by
  refine ⟨h, ⟨fun o ho => ?_, by simp [Session.quiet], by simp [Session.quiet]⟩, rfl⟩
  obtain ⟨x, hx, rfl⟩ := Array.mem_map.mp ho
  exact (h.observers x hx).quiet

theorem Options.alike_quiet (o : Options) (h : ∀ x ∈ o.observers, x.Mild) : o.Alike o.quiet := by
  refine ⟨rfl, rfl, h, fun y hy => ?_⟩
  obtain ⟨x, hx, rfl⟩ := List.mem_map.mp hy
  exact (h x hx).quiet

/-- Whoever pauses, resumes and steps forward, and whenever, a run gives the trace that it gives
when nobody does. -/
theorem pausing_keeps_trace (source : String) (o : Options) (s : Session) (hs : s.Mild)
    (ho : ∀ x ∈ o.observers, x.Mild) :
    (s.execute source o).1 = (s.quiet.execute source o.quiet).1 ∧
      (s.executeDecorated source o).1 = (s.quiet.executeDecorated source o.quiet).1 :=
  ⟨hs.alike_quiet.execute (o.alike_quiet ho) source,
    hs.alike_quiet.executeDecorated (o.alike_quiet ho) source⟩

/-- Pauses at the first step that it hears of. -/
def pauser : Observer where
  name := "pauser"
  channel := .step
  answer n := if n = 1 then [.control .pause] else []

/-- Others pause a run too early, resume and pause it once more after its first step, and let it go
for one step while it is held. -/
def hindered : Session where
  observers := #[pauser]
  lasting := [0]
  wakes := [.pause, .stepForward]
  others := [[.pause], [], [], [.resume, .pause]]

theorem mild_pauser : pauser.Mild := by
  intro n r hr
  by_cases hn : n = 1
  · simp only [pauser, hn, ↓reduceIte, List.mem_singleton] at hr
    subst hr
    simp [Request.Mild, Control.Mild]
  · simp [pauser, hn] at hr

theorem mild_hindered : hindered.Mild where
  observers o ho := by
    simp only [hindered, List.mem_toArray, List.mem_singleton] at ho
    subst ho
    exact mild_pauser
  wakes := by simp [hindered, Control.Mild]
  others := by simp [hindered, Control.Mild]

theorem hindered_keeps_trace :
    hindered.Mild ∧ (∀ x ∈ [pauser], x.Mild) ∧
      (hindered.execute "let x = 1; x++;" { observers := [pauser] }).1 =
        (hindered.quiet.execute "let x = 1; x++;" ({ observers := [pauser] } : Options).quiet).1 :=
  have hpauser : ∀ x ∈ [pauser], x.Mild := by simpa using mild_pauser
  ⟨mild_hindered, hpauser,
    (pausing_keeps_trace "let x = 1; x++;" { observers := [pauser] } hindered mild_hindered
      hpauser).1⟩

end Stepper.Engine
