import Stepper.Proofs.Renewal
import Stepper.Proofs.Stopping

/-!
A request that is refused changes nothing. As long as a run has an engine, it is busy, and whoever
asks for another run is told so, before anything is reset, read or delivered: the session is left as
it was. So what observers and others ask for in vain can be left out. A run among observers that ask
for further runs, and the run among the same observers who do not, are one run, but for the refusals
in the log.
-/
namespace Stepper.Engine

open Execution Machine Syntax
open Relation (ReflTransGen)

/-- Why a request is refused that comes while a run goes on. -/
def Options.refusal (o : Options) : RunError := if o.speed <= 0 then .badSpeed o.speed else .busy

/-- All requests for a run are refused, and change nothing. -/
structure Session.Refuses (s : Session) : Prop where
  execute : ∀ source o, s.execute source o = (.error o.refusal, s)
  executeDecorated : ∀ source o, s.executeDecorated source o = (.error o.refusal, s)
  start : ∀ source o, s.start source o = (.error o.refusal, s)

/-- A request for a run, in one of the ways there are. -/
inductive Bid where
  | execute (source : String) (o : Options)
  | executeDecorated (source : String) (o : Options)
  | start (source : String) (o : Options)

/-- The session in which a bid was made. -/
def Bid.make (s : Session) : Bid → Session
  | .execute source o => (s.execute source o).2
  | .executeDecorated source o => (s.executeDecorated source o).2
  | .start source o => (s.start source o).2

/-- What somebody else does in a turn. -/
inductive Errand where
  | control (c : Control)
  | bid (b : Bid)

def Errand.run (s : Session) : Errand → Session
  | .control c => s.wake c
  | .bid b => b.make s

def Errand.control? : Errand → Option Control
  | .control c => some c
  | .bid _ => none

namespace Session

variable {s t : Session}

/-- A busy session refuses a run. -/
theorem claimed_of_busy {α : Type} (h : s.state.busy = true) (o : Options)
    (f : Session → Except RunError α × Session) : s.claimed o f = (.error o.refusal, s) := by
  unfold Options.refusal
  obtain ⟨hspeed, hrun⟩ | ⟨hspeed, -, hrun⟩ | ⟨-, hfree, -⟩ := claimed_cases o s f
  · rw [hrun, if_pos hspeed]
  · rw [hrun, if_neg hspeed]
  · rw [h] at hfree
    cases hfree

/-- A busy session refuses every request to run something. -/
theorem refuses_of_busy (h : s.state.busy = true) : s.Refuses where
  execute _ o := claimed_of_busy h o _
  executeDecorated _ o := claimed_of_busy h o _
  start source o := by
    have hrun : s.execute source o = (.error o.refusal, s) := claimed_of_busy h o _
    unfold start Options.refusal at *
    rw [hrun]
    by_cases hspeed : o.speed <= 0
    · simp only [if_pos hspeed]
    · simp only [if_neg hspeed]

theorem Refuses.make (h : s.Refuses) (b : Bid) : b.make s = s := by
  cases b with
  | execute source o => exact congrArg Prod.snd (h.execute source o)
  | executeDecorated source o => exact congrArg Prod.snd (h.executeDecorated source o)
  | start source o => exact congrArg Prod.snd (h.start source o)

/-- In a turn of others only the controls count. -/
theorem foldl_run (h : s.state.busy = true) (es : List Errand) :
    es.foldl Errand.run s = (es.filterMap Errand.control?).foldl wake s := by
  induction es generalizing s with
  | nil => rfl
  | cons e es ih =>
    cases e with
    | control c => exact ih ((State.busy_apply s.state c).trans h)
    | bid b =>
      have hmake : Errand.run s (.bid b) = s := (refuses_of_busy h).make b
      rw [List.foldl_cons, hmake]
      exact ih h

/-- A session stays busy whatever happens around its run. -/
theorem busy_surroundings : Surroundings fun s t => t.state.busy = s.state.busy where
  refl _ := rfl
  trans h k := k.trans h
  aside _ _ hstate _ := by rw [hstate]
  control s c := State.busy_apply s.state c
  wake s c := State.busy_apply s.state c
  remark _ _ _ := rfl

section

variable (launch : Program → Session → Session)

/-- Where no run can be launched, it makes no difference what a launch would do. -/
theorem serve_of_busy (h : s.state.busy = true) (rs : List Request) :
    serve launch rs s = serve (fun _ s => s) rs s := by
  induction rs generalizing s with
  | nil => rfl
  | cons r rs ih =>
    cases r with
    | control c => exact ih ((State.busy_apply s.state c).trans h)
    | launch l p =>
      simp only [serve, h, ↓reduceIte]
      exact ih h
    | fail => rfl

/-- An observer's request to run something is refused while a run is active. -/
theorem tell_of_busy (h : s.state.busy = true) (n : Notice) (i : Nat) :
    tell launch n i s = tell (fun _ s => s) n i s := by
  cases ho : s.observers[i]? with
  | none => simp only [tell, ho]
  | some o =>
    rw [tell_eq ho, tell_eq ho]
    exact serve_of_busy launch (s := (s.heardBy i).note (.heard o.name n)) h _

theorem busy_tell (h : s.state.busy = true) (n : Notice) (i : Nat) :
    (tell (fun _ s => s) n i s).2.state.busy = true :=
  (busy_surroundings.tell (fun _ _ _ => rfl) (fun _ _ => rfl) i s).trans h

/-- So a delivery is the same whatever a launch would do. -/
theorem deliver_of_busy (h : s.state.busy = true) (n : Notice) :
    deliver launch n s = s.deliverBusy n := by
  have htell (i : Nat) (t u : Session) (h : t = u ∧ u.state.busy = true) :
      (tell launch n i t).1 = (tell (fun _ s => s) n i u).1 ∧
        (tell launch n i t).2 = (tell (fun _ s => s) n i u).2 ∧
        (tell (fun _ s => s) n i u).2.state.busy = true := by
    obtain ⟨rfl, hbusy⟩ := h
    rw [tell_of_busy launch hbusy]
    exact ⟨rfl, rfl, busy_tell hbusy n i⟩
  have hmeanwhile (t u : Session) (h : t = u ∧ u.state.busy = true) :
      t.meanwhile = u.meanwhile ∧ u.meanwhile.state.busy = true :=
    ⟨congrArg meanwhile h.1, (busy_surroundings.meanwhile u).trans h.2⟩
  obtain ⟨hresult, hs, -⟩ := tellAll_alike (R := fun t u => t = u ∧ u.state.busy = true)
    hmeanwhile htell (s.audience n.channel) ⟨rfl, h⟩
  exact Prod.ext hresult hs

end

end Session

def Request.isLaunch : Request → Bool
  | .launch _ _ => true
  | _ => false

def Entry.isRefusal : Entry → Bool
  | .refused _ => true
  | _ => false

/-- An observer that asks for no runs, and does everything else that it did. -/
def Observer.content (o : Observer) : Observer :=
  { o with answer := fun n => (o.answer n).filter fun r => !r.isLaunch }

def Options.unasked (o : Options) : Options := { o with observers := o.observers.map .content }

namespace Session

variable {s t : Session} {α : Type}

/-- A session in which nobody asks for a run, and nobody was refused one. -/
def unasked (s : Session) : Session :=
  { s with observers := s.observers.map .content, log := s.log.filter fun e => !e.isRefusal }

/-- The result of an act in a session in which nobody asks for a run. -/
def unask (x : α × Session) : α × Session := (x.1, x.2.unasked)

/-- Requests left out leave the state. -/
@[simp] theorem state_unasked (s : Session) : s.unasked.state = s.state := rfl

/-- What is noted is the same without the refusals. -/
theorem note_unasked {e : Entry} (he : e.isRefusal = false) (s : Session) :
    (s.note e).unasked = s.unasked.note e := by
  simp [unasked, note, he]

/-- A refusal leaves no trace where nobody asks. -/
theorem refused_unasked (s : Session) (l : Launch) : (s.note (.refused l)).unasked = s.unasked := by
  simp [unasked, note, Entry.isRefusal]

@[simp] theorem wake_unasked (s : Session) (c : Control) :
    (s.wake c).unasked = s.unasked.wake c := note_unasked rfl (s.control c)

@[simp] theorem getElem?_unasked (s : Session) (i : Nat) :
    s.unasked.observers[i]? = (s.observers[i]?).map Observer.content := Array.getElem?_map

@[simp] theorem heardBy_unasked (s : Session) (i : Nat) :
    (s.heardBy i).unasked = s.unasked.heardBy i := by
  have hobservers : (s.heardBy i).unasked.observers = (s.unasked.heardBy i).observers := by
    refine Array.ext_getElem? fun j => ?_
    rw [getElem?_unasked, observers_heardBy, observers_heardBy, getElem?_unasked]
    split
    · cases s.observers[j]? <;> rfl
    · rfl
  exact congrArg (fun os => { s.unasked with observers := os }) hobservers

theorem audience_unasked (s : Session) (c : Channel) : s.unasked.audience c = s.audience c := by
  refine List.filter_congr fun i _ => ?_
  rw [getElem?_unasked]
  cases s.observers[i]? <;> rfl

/-- An observer without such requests is served alike. -/
theorem serve_unasked (h : s.state.busy = true) (rs : List Request) :
    serve (fun _ s => s) (rs.filter fun r => !r.isLaunch) s.unasked =
      unask (serve (fun _ s => s) rs s) := by
  induction rs generalizing s with
  | nil => rfl
  | cons r rs ih =>
    cases r with
    | control c =>
      have hnote := note_unasked (e := .controlled c (s.control c).state.reading) rfl (s.control c)
      have hserve := ih (s := (s.control c).note (.controlled c (s.control c).state.reading))
        ((State.busy_apply s.state c).trans h)
      rw [hnote] at hserve
      exact hserve
    | launch l p =>
      have hserve := ih (s := s.note (.refused l)) h
      rw [refused_unasked] at hserve
      have hrefused : serve (fun _ s => s) (.launch l p :: rs) s =
          serve (fun _ s => s) rs (s.note (.refused l)) := if_pos h
      rw [hrefused]
      exact hserve
    | fail => exact congrArg (Prod.mk false) (note_unasked rfl s).symm

/-- An observer without such requests is told alike. -/
theorem tell_unasked (h : s.state.busy = true) (n : Notice) (i : Nat) :
    tell (fun _ s => s) n i s.unasked = unask (tell (fun _ s => s) n i s) := by
  cases ho : s.observers[i]? with
  | none => simp [tell, ho, unask]
  | some o =>
    have ho' : s.unasked.observers[i]? = some o.content := by simp [ho]
    have hserve := serve_unasked (s := (s.heardBy i).note (.heard o.name n)) h
      (o.answer (o.heard + 1))
    rw [note_unasked rfl, heardBy_unasked] at hserve
    rw [tell_eq ho, tell_eq ho']
    exact hserve

@[simp] theorem meanwhile_unasked (s : Session) : s.unasked.meanwhile = s.meanwhile.unasked := by
  have hothers : s.unasked.others = s.others := rfl
  have hfold (cs : List Control) (s : Session) :
      cs.foldl wake s.unasked = (cs.foldl wake s).unasked := by
    induction cs generalizing s with
    | nil => rfl
    | cons c cs ih => simpa using ih (s.wake c)
  unfold meanwhile
  rw [hothers]
  cases s.others with
  | nil => rfl
  | cons cs others => exact hfold cs { s with others }

/-- A session with a run, beside the same session in which nobody asks for another. -/
structure Asked (s t : Session) : Prop where
  busy : s.state.busy = true
  unasked : t = s.unasked

theorem Asked.meanwhile (h : s.Asked t) : s.meanwhile.Asked t.meanwhile :=
  ⟨(busy_surroundings.meanwhile s).trans h.busy, by rw [h.unasked, meanwhile_unasked]⟩

/-- One who is told something is told it also where nobody asks. -/
theorem Asked.tell (h : s.Asked t) (n : Notice) (i : Nat) :
    (Session.tell (fun _ s => s) n i s).1 = (Session.tell (fun _ s => s) n i t).1 ∧
      (Session.tell (fun _ s => s) n i s).2.Asked (Session.tell (fun _ s => s) n i t).2 := by
  obtain ⟨hbusy, rfl⟩ := h
  rw [tell_unasked hbusy]
  exact ⟨rfl, busy_tell hbusy n i, rfl⟩

/-- A session and the one without requests go side by side. -/
theorem parallel_asked : Parallel Asked where
  state _ _ h := by rw [h.unasked]; rfl
  wakes _ _ h := by rw [h.unasked]; rfl
  others _ _ h := by rw [h.unasked]; rfl
  wake c s _ h :=
    ⟨(State.busy_apply s.state c).trans h.busy, by rw [h.unasked, wake_unasked]⟩
  turn _ _ _ _ _ h := ⟨h.busy, by rw [h.unasked]; rfl⟩
  setWakes _ _ _ h := ⟨h.busy, by rw [h.unasked]; rfl⟩
  pass id line s _ h := ⟨(State.busy_pass s.state id line).trans h.busy, by rw [h.unasked]; rfl⟩
  modifyRecord _ _ _ h := ⟨h.busy, by rw [h.unasked]; rfl⟩
  deliverBusy n s t h := by
    have haudience : t.audience n.channel = s.audience n.channel := by
      rw [h.unasked, audience_unasked]
    dsimp only [deliverBusy, deliver]
    rw [haudience]
    exact tellAll_alike (R := Asked) (fun _ _ => Asked.meanwhile) (fun i _ _ h => h.tell n i) _ h

/-- Both are released alike. -/
theorem release_unasked (outcome : Except RunError Status) (s : Session) :
    release outcome s.unasked = unask (release outcome s) := by
  have hfinish (status : Status) (s : Session) : s.unasked.modifyState (·.finish status) =
      (s.modifyState (·.finish status)).unasked := rfl
  cases outcome with
  | ok status =>
    simp only [release, meanwhile_unasked, hfinish, state_unasked]
    rfl
  | error e =>
    simp only [release, meanwhile_unasked, hfinish]
    rfl

theorem begun_unasked (o : Options) (s : Session) :
    s.unasked.begun o.unasked = (s.begun o).unasked := by
  unfold begun
  rw [meanwhile_unasked]
  simp [unasked, engage, modifyState, Options.unasked]

/-- A run among those who ask for others is the run among those who do not. -/
theorem runClaimed_unasked (h : s.state.busy = true) (p : Except SyntaxFault Program)
    (o : Options) : s.unasked.runClaimed p o.unasked = unask (s.runClaimed p o) := by
  have hbegun : (s.begun o).Asked (s.begun o).unasked := ⟨(underway_begun o h).busy, rfl⟩
  obtain ⟨hresult, hasked⟩ := parallel_asked.indistinct.followRead p _ _ hbegun
  rw [runClaimed_eq_release, begun_unasked, ← hresult, hasked.unasked, release_unasked]
  rfl

theorem abandonClaimed_unasked (s : Session) :
    s.unasked.abandonClaimed = unask s.abandonClaimed := by
  simp only [abandonClaimed, meanwhile_unasked]
  rfl

/-- Both are claimed alike. -/
theorem claimed_unasked {o : Options} {f g : Session → Except RunError α × Session}
    (hfg : ∀ s : Session, s.state.busy = true → g s.unasked = unask (f s)) (s : Session) :
    s.unasked.claimed o.unasked g = unask (s.claimed o f) := by
  have hspeed : o.unasked.speed = o.speed := rfl
  unfold claimed
  rw [hspeed, state_unasked]
  split
  · rfl
  · cases hclaim : s.state.claim? with
    | none => rfl
    | some state =>
      obtain ⟨-, rfl⟩ := State.claim_eq_some hclaim
      exact hfg s.claim rfl

end Session

open Session

/-- While a run has the engine, whoever asks for another is refused, and nothing changes: not the
engine, not what was heard and not what others do in their turns. No observer can launch a run, and
those who ask for one might as well not have asked. -/
theorem refused_requests_change_nothing :
    (∀ x : Shared, Shared.Moves {} x → 0 < x.waiting + x.started →
      ∀ s : Session, s.state = x.state → s.Refuses) ∧
    (∀ s : Session, s.state.busy = true →
      (∀ es : List Errand, es.foldl Errand.run s = (es.filterMap Errand.control?).foldl wake s) ∧
      (∀ launch n, deliver launch n s = s.deliverBusy n) ∧
      ∀ o t, Deeds (s.begun o) t → t.Refuses) ∧
    ∀ (s : Session) (source : String) (o : Options),
      s.unasked.executeDecorated source o.unasked = unask (s.executeDecorated source o) ∧
      ∀ p, read source = .ok p →
        s.unasked.execute source o.unasked = unask (s.execute source o) := by
  refine ⟨fun x hx hactive s hs => refuses_of_busy ?_, fun s hs => ⟨foldl_run hs, ?_, ?_⟩,
    fun s source o => ⟨?_, fun p hread => ?_⟩⟩
  · have hclaims : x.waiting + x.started = x.state.busy.toNat := (hx.sound Shared.sound_new).claims
    rw [hs]
    cases hbusy : x.state.busy with
    | true => rfl
    | false => simp [hbusy] at hclaims; omega
  · exact fun launch n => deliver_of_busy launch hs n
  · exact fun o t ht => refuses_of_busy (ht.busy.trans (underway_begun o hs).busy)
  · exact claimed_unasked (fun t ht => runClaimed_unasked ht _ o) s
  · rw [execute_eq, execute_eq]
    refine claimed_unasked (fun t ht => ?_) s
    unfold executeClaimed
    rw [hread]
    dsimp only
    cases Instrument.decorate "" p with
    | ok text => exact runClaimed_unasked ht (read text) o
    | error e => exact abandonClaimed_unasked t

/-- Asks for another run at each step, in both ways, and pauses the one there is. -/
def nagger : Observer where
  name := "nagger"
  channel := .step
  answer _ := [.launch .execute default, .control .pause, .launch .start default]

def nagged : Session where
  observers := #[nagger]
  lasting := [0]
  wakes := [.resume, .resume]

/-- An engine with a run that has started. -/
def startedRun : Shared := ⟨{ status := .running, busy := true, running := true }, 0, 1⟩

theorem nagged_refuses :
    Shared.Moves {} startedRun ∧ 0 < startedRun.waiting + startedRun.started ∧
      Refuses { nagged with state := startedRun.state } ∧ startedRun.state.busy = true ∧
      [Errand.bid (.start "" {}), .control .stop].foldl Errand.run
          { nagged with state := startedRun.state } =
        wake { nagged with state := startedRun.state } .stop ∧
      ∃ p, read "let x = 1;" = .ok p ∧
        nagged.unasked.execute "let x = 1;" ({} : Options).unasked =
          unask (nagged.execute "let x = 1;" {}) := by
  have hmoves : Shared.Moves {} startedRun :=
    (ReflTransGen.single (.claim 0 0 rfl)).tail (.start _ 0 0 none)
  have hrefuses : Refuses { nagged with state := startedRun.state } :=
    refused_requests_change_nothing.1 startedRun hmoves (by decide) _ rfl
  have hturn := (refused_requests_change_nothing.2.1
    { nagged with state := startedRun.state } rfl).1 [.bid (.start "" {}), .control .stop]
  have hreads : (read "let x = 1;").isOk = true := by decide +kernel
  cases hread : read "let x = 1;" with
  | error f => simp [hread, Except.isOk, Except.toBool] at hreads
  | ok p =>
    exact ⟨hmoves, by decide, hrefuses, rfl, hturn, p, rfl,
      (refused_requests_change_nothing.2.2 nagged "let x = 1;" {}).2 p hread⟩

end Stepper.Engine
