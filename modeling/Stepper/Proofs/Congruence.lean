import Stepper.Engine.Run
import Stepper.Proofs.Host

/-!
Runs of two sessions side by side. An act is blind to a relation between sessions if it comes to one
result in sessions that are related and leaves them related. A run is made of turns of others, of
records, of deliveries and of steps at the gate. If these are blind to a relation between sessions
with equal records, then so is all that a run does until it is released: the two programs hear the
same replies, and whatever they come to is concluded alike.
-/
namespace Stepper.Engine

open Execution Machine Syntax

namespace Session

variable {R : Session → Session → Prop} {β γ : Type}

/-- An act that comes to the same in sessions that are related, and leaves them related. -/
def Blind (R : Session → Session → Prop) (f : Session → β × Session) : Prop :=
  ∀ s t : Session, R s t → (f s).1 = (f t).1 ∧ R (f s).2 (f t).2

/-- What is done in turn is blind if each part is. -/
theorem Blind.andThen {f : Session → β × Session} {g : β → Session → γ × Session}
    (hf : Blind R f) (hg : ∀ b, Blind R (g b)) : Blind R fun s => g (f s).1 (f s).2 := by
  intro s t h
  obtain ⟨hresult, hrelated⟩ := hf s t h
  simp only [hresult]
  exact hg _ _ _ hrelated

theorem Blind.reply {f : Session → Bool × Session} (hf : Blind R f) :
    Blind R fun s => reply (f s) := by
  intro s t h
  obtain ⟨hresult, hrelated⟩ := hf s t h
  change (Session.reply (f s)).1 = (Session.reply (f t)).1 ∧
    R (Session.reply (f s)).2 (Session.reply (f t)).2
  rcases hs : f s with ⟨b, s'⟩
  rcases ht : f t with ⟨b', t'⟩
  rw [hs, ht] at hresult hrelated
  obtain rfl : b = b' := hresult
  cases b with
  | true => exact ⟨rfl, hrelated⟩
  | false => exact ⟨rfl, hrelated⟩

/-- Sessions that are related are told alike, if each single observer is. -/
theorem tellAll_alike {launch launch' : Program → Session → Session} {n : Notice}
    (hmeanwhile : ∀ s t, R s t → R s.meanwhile t.meanwhile)
    (htell : ∀ i s t, R s t → (tell launch n i s).1 = (tell launch' n i t).1 ∧
      R (tell launch n i s).2 (tell launch' n i t).2) (is : List Nat) {s t : Session} (h : R s t) :
    (tellAll launch n is s).1 = (tellAll launch' n is t).1 ∧
      R (tellAll launch n is s).2 (tellAll launch' n is t).2 := by
  induction is generalizing s t with
  | nil => exact ⟨rfl, h⟩
  | cons i is ih =>
    obtain ⟨hresult, hrelated⟩ := htell i _ _ (hmeanwhile s t h)
    unfold Session.tellAll
    rcases hs : tell launch n i s.meanwhile with ⟨b, u⟩
    rcases ht : tell launch' n i t.meanwhile with ⟨b', v⟩
    rw [hs, ht] at hresult hrelated
    obtain rfl : b = b' := hresult
    cases b with
    | true => exact ih hrelated
    | false => exact ⟨rfl, hrelated⟩

/-- What a relation has to be kept by, so that no run can tell related sessions apart. -/
structure Indistinct (R : Session → Session → Prop) : Prop where
  record : ∀ s t, R s t → s.state.record = t.state.record
  meanwhile : ∀ s t, R s t → R s.meanwhile t.meanwhile
  modifyRecord : ∀ (f : Record → Record) s t, R s t →
    R (s.modifyState fun e => { e with record := f e.record })
      (t.modifyState fun e => { e with record := f e.record })
  deliverBusy : ∀ n, Blind R fun s => s.deliverBusy n
  step : ∀ id line, Blind R (step id line)

namespace Indistinct

variable (hR : Indistinct R)

include hR

/-- What is written to the console is the same on both sides. -/
theorem write (kind : ConsoleKind) (message : Text) : Blind R (Session.write kind message) := by
  intro s t h
  exact (hR.deliverBusy _).reply _ _ (hR.modifyRecord (·.write ⟨kind, message⟩) s t h)

theorem takeDown (c : Call) : Blind R (Session.takeDown c) := by
  intro s t h
  unfold Session.takeDown
  cases recording c with
  | ok f => exact ⟨rfl, hR.modifyRecord f s t h⟩
  | error f => exact ⟨rfl, h⟩

/-- A call is answered alike on both sides. -/
theorem hear (c : Call) : Blind R (Session.hear c) := by
  intro s t h
  have hnow := hR.meanwhile s t h
  cases c with
  | step id line => exact hR.step id line _ _ hnow
  | console kind m =>
    cases m with
    | text message => exact hR.write kind message _ _ hnow
    | values h room vs => exact hR.takeDown _ _ _ hnow
  | _ => exact hR.takeDown _ _ _ hnow

/-- So a program cannot tell the sessions apart. -/
theorem host_repliesAlike : host.RepliesAlike host R where
  wantsText := rfl
  reply c s t h := (hR.hear c s t h).1
  keeps c s t h := (hR.hear c s t h).2

/-- A failure is recorded alike. -/
theorem fail (e : ErrorRecord) : Blind R (Session.fail e) := by
  intro s t h
  obtain ⟨hresult, hrelated⟩ := hR.deliverBusy (.error e) _ _
    (hR.modifyRecord (·.addError e) _ _ (hR.meanwhile s t h))
  unfold Session.fail
  split
  · next s' hs =>
    split
    · next t' ht =>
      simp only [hs, ht] at hrelated
      exact ⟨rfl, hrelated⟩
    · next t' ht => simp [hs, ht] at hresult
  · next s' hs =>
    split
    · next t' ht => simp [hs, ht] at hresult
    · next t' ht =>
      simp only [hs, ht] at hrelated
      exact ⟨rfl, hrelated⟩

theorem failProgram (name message : Text) : Blind R (Session.failProgram name message) := by
  intro s t h
  unfold Session.failProgram
  rw [hR.record s t h]
  exact hR.fail _ _ _ h

theorem settle (e : Ending) : Blind R (Session.settle e) := by
  intro s t h
  cases e with
  | finished => exact ⟨rfl, h⟩
  | uncaught name message => exact hR.failProgram _ _ _ _ h
  | failed i => exact ⟨rfl, h⟩

/-- A program is concluded alike. -/
theorem conclude (p : Program) (outcome : Outcome Unit) : Blind R (Session.conclude p outcome) := by
  cases outcome with
  | done _ _ => exact fun _ _ h => ⟨rfl, h⟩
  | broke i w =>
    by_cases hstopped : i = .stopped
    · subst hstopped
      exact fun _ _ h => ⟨rfl, h⟩
    by_cases hdeep : i = .fault .nestingTooDeep
    · subst hdeep
      exact hR.failProgram _ _
    have hrest : Session.conclude p (.broke i w) = fun s =>
        Session.settle (endingOf p host i w s).1 (endingOf p host i w s).2 := by
      funext s
      simp only [Session.conclude]
    have hending : Blind R (endingOf p host i w) :=
      fun _ _ h => endingOf_alike hR.host_repliesAlike p i w h
    rw [hrest]
    exact hending.andThen hR.settle

/-- A program is followed alike. -/
theorem follow (p : Program) : Blind R (Session.follow p) := by
  have hrun : Blind R (run p host) := fun _ _ h => run_alike hR.host_repliesAlike p h
  have hfollow : Session.follow p = fun s =>
      Session.conclude p (run p host s).1 (run p host s).2 := rfl
  rw [hfollow]
  exact hrun.andThen (hR.conclude p)

theorem followRead (p : Except SyntaxFault Program) : Blind R (Session.followRead p) := by
  cases p with
  | ok p => exact hR.follow p
  | error f => exact hR.fail _

end Indistinct

/-- A relation between sessions with engines in one state, on which others act in the same turns. It
has to be kept by what is done to the engines, by a turn of others, and by a delivery. -/
structure Parallel (R : Session → Session → Prop) : Prop where
  state : ∀ s t, R s t → s.state = t.state
  wakes : ∀ s t, R s t → s.wakes = t.wakes
  others : ∀ s t, R s t → s.others = t.others
  wake : ∀ c s t, R s t → R (s.wake c) (t.wake c)
  turn : ∀ cs others s t, s.others = cs :: others → R s t → R { s with others } { t with others }
  setWakes : ∀ wakes s t, R s t → R { s with wakes } { t with wakes }
  pass : ∀ id line s t, R s t →
    R { s with state := (s.state.pass id line).2 } { t with state := (t.state.pass id line).2 }
  modifyRecord : ∀ (f : Record → Record) s t, R s t →
    R (s.modifyState fun e => { e with record := f e.record })
      (t.modifyState fun e => { e with record := f e.record })
  deliverBusy : ∀ n, Blind R fun s => s.deliverBusy n

namespace Parallel

variable (hR : Parallel R) {s t : Session}

include hR

theorem foldl_wake (cs : List Control) (h : R s t) :
    R (cs.foldl Session.wake s) (cs.foldl Session.wake t) := by
  induction cs generalizing s t with
  | nil => exact h
  | cons c cs ih => exact ih (hR.wake c s t h)

/-- Others act alike between two acts of the run. -/
theorem meanwhile (h : R s t) : R s.meanwhile t.meanwhile := by
  unfold Session.meanwhile
  rw [← hR.others s t h]
  cases hs : s.others with
  | nil => exact h
  | cons cs others => exact hR.foldl_wake cs (hR.turn cs others s t hs h)

/-- Engines in one state are held alike, and let go alike. -/
theorem await (wakes : List Control) (h : R s t) : R (s.await wakes) (t.await wakes) := by
  have hheld : ∀ s t, R s t → s.state.isHeld = t.state.isHeld :=
    fun s t h => congrArg State.isHeld (hR.state s t h)
  induction wakes generalizing s t with
  | nil =>
    unfold Session.await
    rw [hheld s t h]
    split
    · exact hR.setWakes [] s t h
    · exact hR.setWakes [] _ _ (hR.wake .resume s t h)
  | cons c wakes ih =>
    unfold Session.await
    rw [hheld s t h]
    split
    · exact hR.setWakes (c :: wakes) s t h
    · exact ih (hR.meanwhile (hR.wake c s t h))

theorem step (id line : Int) : Blind R (Session.step id line) := by
  intro s t h
  unfold Session.step
  rw [hR.state s t h, hR.wakes s t h]
  cases t.state.running with
  | false => exact ⟨rfl, h⟩
  | true =>
    have hlet := hR.await t.wakes h
    simp only [Bool.not_true, Bool.false_eq_true, ↓reduceIte]
    have hpassed := hR.pass id line _ _ hlet
    rw [hR.state _ _ hlet] at hpassed ⊢
    generalize (t.await t.wakes).state.pass id line = verdict at hpassed
    rcases verdict with ⟨b, x⟩
    cases b with
    | false => exact ⟨rfl, hpassed⟩
    | true => exact (hR.deliverBusy _).reply _ _ hpassed

/-- No run can tell such sessions apart. -/
theorem indistinct : Indistinct R where
  record s t h := congrArg State.record (hR.state s t h)
  meanwhile _ _ h := hR.meanwhile h
  modifyRecord := hR.modifyRecord
  deliverBusy := hR.deliverBusy
  step := hR.step

end Parallel
end Session
end Stepper.Engine
