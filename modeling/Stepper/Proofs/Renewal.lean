import Stepper.Proofs.Flags

/-!
Every run begins anew. Whatever was done with an engine before, once it is free the next run on it
is the run that a new engine gives: a claim, and then a start or a rejection, leave nothing of what
was before. Two sessions are twins if their engines are in one state, the same others act on them in
the same turns, and the observers of the present run are the same; they may differ in subscribers
that ask for nothing, and in their logs. All that a run does takes twins to twins. An old engine and
a new one that have been claimed become twins when the run begins.
-/
namespace Stepper.Engine

open Execution Machine Syntax
open Relation (ReflTransGen)

/-- Hears, and asks for nothing. -/
def Observer.Passive (o : Observer) : Prop := ∀ n, o.answer n = []

namespace State

/-- A relation between engines that controls keep, and of which nothing is left when a run starts or
a source is rejected. -/
structure Forgotten (S : State → State → Prop) : Prop where
  apply : ∀ x y c, S x y → S (x.apply c) (y.apply c)
  start : ∀ x y maxSteps, S x y → x.start maxSteps = y.start maxSteps
  reject : ∀ x y maxSteps e, S x y → x.reject maxSteps e = y.reject maxSteps e

theorem forgotten_eq : Forgotten Eq where
  apply _ _ c h := congrArg (·.apply c) h
  start _ _ maxSteps h := congrArg (·.start maxSteps) h
  reject _ _ maxSteps e h := congrArg (·.reject maxSteps e) h

/-- Engines that a start makes one: both are claimed or both free, no stop was given to one of them
alone, and neither runs. -/
structure Readied (x y : State) : Prop where
  busy : x.busy = y.busy
  stopRequested : x.stopRequested = y.stopRequested
  left : x.AtRest
  right : y.AtRest

variable {x y : State}

theorem AtRest.stop (h : x.AtRest) : (x.apply .stop).AtRest := by
  rw [apply_stop]
  split
  · exact ⟨rfl, rfl⟩
  · exact h

theorem AtRest.applied (h : x.AtRest) (c : Control) : (x.apply c).AtRest := by
  by_cases hc : c = .stop
  · exact hc ▸ h.stop
  · rw [h.apply hc]
    exact h

/-- A run that did not begin has left this status and these records as they were. -/
structure Keeps (x y : State) : Prop where
  status : y.status = x.status
  record : y.record = x.record

theorem AtRest.keeps_apply (h : x.AtRest) (c : Control) : x.Keeps (x.apply c) := by
  by_cases hc : c = .stop
  · subst hc
    rw [apply_stop]
    split <;> exact ⟨rfl, rfl⟩
  · rw [h.apply hc]
    exact ⟨rfl, rfl⟩

theorem Readied.apply (h : x.Readied y) (c : Control) : (x.apply c).Readied (y.apply c) := by
  by_cases hc : c = .stop
  · subst hc
    refine ⟨by simp [h.busy], ?_, h.left.stop, h.right.stop⟩
    rw [apply_stop, apply_stop, h.busy, h.stopRequested]
    split
    · rfl
    · exact h.stopRequested
  · rw [h.left.apply hc, h.right.apply hc]
    exact h

theorem forgotten_readied : Forgotten Readied where
  apply _ _ c h := h.apply c
  start _ _ maxSteps h := by simp [State.start, reset, h.busy, h.stopRequested]
  reject _ _ maxSteps e h := by
    simp [State.reject, reset, h.left.running, h.right.running, h.stopRequested]

/-- An engine whose flags agree is claimed like a new one. -/
theorem readied_claim (h : x.Settled) :
    Readied { x with busy := true, stopRequested := false } { busy := true } :=
  ⟨rfl, rfl, ⟨h.running, h.paused⟩, ⟨rfl, rfl⟩⟩

end State

namespace Session

variable {s t : Session} {i : Nat}

def PassiveAt (s : Session) (i : Nat) : Prop := ∃ o, s.observers[i]? = some o ∧ o.Passive

def listensTo (s : Session) (c : Channel) (i : Nat) : Bool :=
  (s.observers[i]?).any (·.channel == c)

/-- Those who hear a channel in every run. -/
def subscribers (s : Session) (c : Channel) : List Nat := s.lasting.filter (s.listensTo c)

theorem audience_eq (s : Session) (c : Channel) :
    s.audience c = s.subscribers c ++ s.own.filter (s.listensTo c) := List.filter_append ..

/-- An observer has heard one notice more. -/
def heardBy (s : Session) (i : Nat) : Session :=
  { s with observers := s.observers.modify i fun o => { o with heard := o.heard + 1 } }

theorem observers_heardBy (s : Session) (i j : Nat) : (s.heardBy i).observers[j]? =
    if i = j then (s.observers[j]?).map fun o => { o with heard := o.heard + 1 }
    else s.observers[j]? := Array.getElem?_modify ..

@[simp] theorem others_heardBy (s : Session) (i : Nat) : (s.heardBy i).others = s.others := rfl

theorem PassiveAt.heardBy {j : Nat} (h : s.PassiveAt j) (i : Nat) : (s.heardBy i).PassiveAt j := by
  obtain ⟨o, ho, hpassive⟩ := h
  unfold PassiveAt
  rw [observers_heardBy, ho]
  split
  · exact ⟨_, rfl, hpassive⟩
  · exact ⟨o, rfl, hpassive⟩

@[simp] theorem listensTo_heardBy (s : Session) (i : Nat) (c : Channel) :
    (s.heardBy i).listensTo c = s.listensTo c := by
  funext j
  unfold listensTo
  rw [observers_heardBy]
  split
  · cases s.observers[j]? <;> rfl
  · rfl

@[simp] theorem subscribers_heardBy (s : Session) (i : Nat) (c : Channel) :
    (s.heardBy i).subscribers c = s.subscribers c := by
  unfold subscribers
  rw [listensTo_heardBy]
  rfl

theorem tell_eq {launch : Program → Session → Session} {n : Notice} {o : Observer}
    (h : s.observers[i]? = some o) : tell launch n i s =
      serve launch (o.answer (o.heard + 1)) ((s.heardBy i).note (.heard o.name n)) := by
  simp only [tell, h]
  rfl

theorem PassiveAt.tell (h : s.PassiveAt i) (launch : Program → Session → Session) (n : Notice) :
    ∃ who, Session.tell launch n i s = (true, (s.heardBy i).note (.heard who n)) := by
  obtain ⟨o, ho, hpassive⟩ := h
  refine ⟨o.name, ?_⟩
  rw [tell_eq ho, hpassive]
  rfl

/-- Others act on the engine, and what they do is noted; nothing else in the session changes. -/
theorem foldl_wake_eq (cs : List Control) (s : Session) :
    ∃ state log, cs.foldl wake s = { s with state, log } := by
  induction cs generalizing s with
  | nil => exact ⟨s.state, s.log, rfl⟩
  | cons c cs ih =>
    obtain ⟨state, log, h⟩ := ih (s.wake c)
    exact ⟨state, log, h⟩

theorem meanwhile_eq (s : Session) :
    ∃ state others log, s.meanwhile = { s with state, others, log } := by
  unfold meanwhile
  cases s.others with
  | nil => exact ⟨s.state, s.others, s.log, rfl⟩
  | cons cs others =>
    obtain ⟨state, log, h⟩ := foldl_wake_eq cs { s with others }
    exact ⟨state, others, log, h⟩

@[simp] theorem observers_meanwhile (s : Session) : s.meanwhile.observers = s.observers := by
  obtain ⟨_, _, _, h⟩ := s.meanwhile_eq
  rw [h]

@[simp] theorem own_meanwhile (s : Session) : s.meanwhile.own = s.own := by
  obtain ⟨_, _, _, h⟩ := s.meanwhile_eq
  rw [h]

/-- Of an engine that does not run, others change neither the status nor the records. -/
theorem keeps_surroundings : Surroundings fun s t =>
    s.state.AtRest → t.state.AtRest ∧ s.state.Keeps t.state where
  refl s h := ⟨h, rfl, rfl⟩
  trans h k hrest :=
    have ⟨ht, htkeeps⟩ := h hrest
    have ⟨hu, hukeeps⟩ := k ht
    ⟨hu, hukeeps.status.trans htkeeps.status, hukeeps.record.trans htkeeps.record⟩
  aside s t hstate _ hrest := by
    rw [hstate]
    exact ⟨hrest, rfl, rfl⟩
  control s c hrest := ⟨hrest.applied c, hrest.keeps_apply c⟩
  wake s c hrest := ⟨hrest.applied c, hrest.keeps_apply c⟩
  remark s e _ hrest := ⟨hrest, rfl, rfl⟩

theorem PassiveAt.meanwhile (h : s.PassiveAt i) : s.meanwhile.PassiveAt i := by
  unfold PassiveAt
  rw [observers_meanwhile]
  exact h

theorem tellAll_append (launch : Program → Session → Session) (n : Notice) (is js : List Nat)
    {s t : Session} (h : tellAll launch n is s = (true, t)) :
    tellAll launch n (is ++ js) s = tellAll launch n js t := by
  induction is generalizing s with
  | nil =>
    cases h
    rfl
  | cons i is ih =>
    simp only [List.cons_append, tellAll] at h ⊢
    split at h
    · exact ih h
    · cases h

/-! ### Peers and twins -/

/-- Sessions with engines in related states, on which others act in the same turns. Their observers
are the same from some place on, and the lasting ones, who come before it, ask for nothing. Since
others have a turn before each observer, there are equally many of these wherever others still act.
-/
structure Peers (S : State → State → Prop) (a b : Nat) (s t : Session) : Prop where
  state : S s.state t.state
  wakes : s.wakes = t.wakes
  others : s.others = t.others
  size : ∃ n, s.observers.size = a + n ∧ t.observers.size = b + n
  observers : ∀ k, s.observers[a + k]? = t.observers[b + k]?
  lasting_left : ∀ i ∈ s.lasting, i < a ∧ s.PassiveAt i
  lasting_right : ∀ i ∈ t.lasting, i < b ∧ t.PassiveAt i
  turns : s.others = [] ∨ ∀ c, (s.subscribers c).length = (t.subscribers c).length

namespace Peers

variable {S T : State → State → Prop} {a b : Nat}

theorem modifyState (h : Peers S a b s t) (f g : State → State) (hfg : T (f s.state) (g t.state)) :
    Peers T a b (s.modifyState f) (t.modifyState g) :=
  { h with state := hfg }

theorem note (h : Peers S a b s t) (e e' : Entry) : Peers S a b (s.note e) (t.note e') := { h with }

theorem wake (hS : State.Forgotten S) (h : Peers S a b s t) (c : Control) :
    Peers S a b (s.wake c) (t.wake c) :=
  (h.modifyState (·.apply c) (·.apply c) (hS.apply _ _ c h.state)).note _ _

theorem foldl_wake (hS : State.Forgotten S) (h : Peers S a b s t) (cs : List Control) :
    Peers S a b (cs.foldl Session.wake s) (cs.foldl Session.wake t) := by
  induction cs generalizing s t with
  | nil => exact h
  | cons c cs ih => exact ih (h.wake hS c)

theorem meanwhile (hS : State.Forgotten S) (h : Peers S a b s t) :
    Peers S a b s.meanwhile t.meanwhile := by
  unfold Session.meanwhile
  rw [← h.others]
  cases hs : s.others with
  | nil => exact h
  | cons cs others =>
    have hrest : Peers S a b { s with others } { t with others } :=
      { h with others := rfl, turns := .inr (h.turns.resolve_left (by simp [hs])) }
    exact hrest.foldl_wake hS cs

end Peers

/-- Sessions in which a run goes on that does the same in both. -/
structure Twins (a b : Nat) (s t : Session) : Prop extends Peers Eq a b s t where
  own : ∃ ks : List Nat, s.own = ks.map (a + ·) ∧ t.own = ks.map (b + ·)

namespace Twins

variable {a b : Nat}

theorem symm (h : Twins a b s t) : Twins b a t s where
  state := h.state.symm
  wakes := h.wakes.symm
  others := h.others.symm
  size := h.size.imp fun _ hn => hn.symm
  observers k := (h.observers k).symm
  lasting_left := h.lasting_right
  lasting_right := h.lasting_left
  turns := h.others ▸ h.turns.imp_right fun hc c => (hc c).symm
  own := h.own.imp fun _ hks => hks.symm

theorem modifyState (h : Twins a b s t) (f : State → State) :
    Twins a b (s.modifyState f) (t.modifyState f) :=
  { h with state := congrArg f h.state }

theorem note (h : Twins a b s t) (e e' : Entry) : Twins a b (s.note e) (t.note e') := { h with }

theorem note_left (h : Twins a b s t) (e : Entry) : Twins a b (s.note e) t := { h with }

theorem setWakes (h : Twins a b s t) (wakes : List Control) :
    Twins a b { s with wakes } { t with wakes } := { h with wakes := rfl }

theorem wake (h : Twins a b s t) (c : Control) : Twins a b (s.wake c) (t.wake c) :=
  (h.modifyState (·.apply c)).note _ _

theorem meanwhile (h : Twins a b s t) : Twins a b s.meanwhile t.meanwhile where
  toPeers := h.toPeers.meanwhile State.forgotten_eq
  own := by
    rw [own_meanwhile, own_meanwhile]
    exact h.own

/-! ### Telling -/

/-- What a lasting observer of one session hears leaves the sessions twins. -/
theorem heardBy_left (h : Twins a b s t) {i : Nat} (hi : i < a) : Twins a b (s.heardBy i) t where
  state := h.state
  wakes := h.wakes
  others := h.others
  size := by simpa [heardBy] using h.size
  observers k := by
    rw [observers_heardBy, ← h.observers, if_neg (by omega)]
  lasting_left j hj := ⟨(h.lasting_left j hj).1, (h.lasting_left j hj).2.heardBy i⟩
  lasting_right := h.lasting_right
  turns := by simpa using h.turns
  own := h.own

theorem heardBy_right (h : Twins a b s t) {i : Nat} (hi : i < b) : Twins a b s (t.heardBy i) :=
  (h.symm.heardBy_left hi).symm

theorem heardBy_own (h : Twins a b s t) (k : Nat) :
    Twins a b (s.heardBy (a + k)) (t.heardBy (b + k)) where
  state := h.state
  wakes := h.wakes
  others := h.others
  size := by simpa [heardBy] using h.size
  observers j := by
    simp only [observers_heardBy, h.observers, Nat.add_left_cancel_iff]
  lasting_left j hj := ⟨(h.lasting_left j hj).1, (h.lasting_left j hj).2.heardBy _⟩
  lasting_right j hj := ⟨(h.lasting_right j hj).1, (h.lasting_right j hj).2.heardBy _⟩
  turns := by simpa using h.turns
  own := h.own

section

variable (launch : Program → Session → Session) (n : Notice)

/-- With nobody else there, it makes no difference how many lasting observers hear. -/
theorem tellAll_left (h : Twins a b s t) (halone : s.others = []) {is : List Nat}
    (his : ∀ i ∈ is, i < a ∧ s.PassiveAt i) :
    ∃ s', tellAll launch n is s = (true, s') ∧ Twins a b s' t := by
  induction is generalizing s with
  | nil => exact ⟨s, rfl, h⟩
  | cons i is ih =>
    obtain ⟨hi, hpassive⟩ := his i (by simp)
    obtain ⟨who, htell⟩ := hpassive.tell launch n
    have hrest : ∀ j ∈ is, j < a ∧ ((s.heardBy i).note (.heard who n)).PassiveAt j :=
      fun j hj => ⟨(his j (by simp [hj])).1, (his j (by simp [hj])).2.heardBy i⟩
    have hnow : s.meanwhile = s := by simp [Session.meanwhile, halone]
    unfold Session.tellAll
    rw [hnow, htell]
    exact ih ((h.heardBy_left hi).note_left _) halone hrest

/-- Where others take turns, each lasting observer of one session has one of the other beside it. -/
theorem tellAll_pairs (h : Twins a b s t) {is js : List Nat} (hlength : is.length = js.length)
    (his : ∀ i ∈ is, i < a ∧ s.PassiveAt i) (hjs : ∀ j ∈ js, j < b ∧ t.PassiveAt j) :
    ∃ s' t', tellAll launch n is s = (true, s') ∧ tellAll launch n js t = (true, t') ∧
      Twins a b s' t' := by
  induction is generalizing s t js with
  | nil =>
    obtain rfl : js = [] := List.length_eq_zero_iff.mp hlength.symm
    exact ⟨s, t, rfl, rfl, h⟩
  | cons i is ih =>
    obtain _ | ⟨j, js⟩ := js
    · cases hlength
    obtain ⟨hi, hpassive⟩ := his i (by simp)
    obtain ⟨hj, hpassive'⟩ := hjs j (by simp)
    obtain ⟨who, htell⟩ := hpassive.meanwhile.tell launch n
    obtain ⟨who', htell'⟩ := hpassive'.meanwhile.tell launch n
    unfold Session.tellAll
    rw [htell, htell']
    refine ih (((h.meanwhile.heardBy_left hi).heardBy_right hj).note _ _)
      (Nat.succ.inj hlength) (fun k hk => ?_) (fun k hk => ?_)
    · obtain ⟨hlt, hk⟩ := his k (by simp [hk])
      exact ⟨hlt, hk.meanwhile.heardBy i⟩
    · obtain ⟨hlt, hk⟩ := hjs k (by simp [hk])
      exact ⟨hlt, hk.meanwhile.heardBy j⟩

theorem tellAll_subscribers (h : Twins a b s t) (c : Channel) :
    ∃ s' t', tellAll launch n (s.subscribers c) s = (true, s') ∧
      tellAll launch n (t.subscribers c) t = (true, t') ∧ Twins a b s' t' := by
  have hs : ∀ i ∈ s.subscribers c, i < a ∧ s.PassiveAt i :=
    fun i hi => h.lasting_left i (List.mem_filter.mp hi).1
  have ht : ∀ j ∈ t.subscribers c, j < b ∧ t.PassiveAt j :=
    fun j hj => h.lasting_right j (List.mem_filter.mp hj).1
  rcases h.turns with halone | hcount
  · obtain ⟨s', hs', h'⟩ := h.tellAll_left launch n halone hs
    obtain ⟨t', ht', h''⟩ := h'.symm.tellAll_left launch n (h.others ▸ halone) ht
    exact ⟨s', t', hs', ht', h''.symm⟩
  · exact h.tellAll_pairs launch n (hcount c) hs ht

variable {launch} (hl : ∀ p s t, Twins a b s t → Twins a b (launch p s) (launch p t))

include hl

theorem blind_serve (rs : List Request) : Blind (Twins a b) (Session.serve launch rs) := by
  intro s t h
  induction rs generalizing s t with
  | nil => exact ⟨rfl, h⟩
  | cons r rs ih =>
    cases r with
    | control c => exact ih _ _ ((h.modifyState (·.apply c)).note _ _)
    | launch l p =>
      unfold Session.serve
      rw [h.state]
      split
      · exact ih _ _ (h.note _ _)
      · exact ih _ _ ((hl p s t h).note _ _)
    | fail => exact ⟨rfl, h.note _ _⟩

theorem tell_own (h : Twins a b s t) (k : Nat) :
    (Session.tell launch n (a + k) s).1 = (Session.tell launch n (b + k) t).1 ∧
      Twins a b (Session.tell launch n (a + k) s).2 (Session.tell launch n (b + k) t).2 := by
  cases ho : s.observers[a + k]? with
  | none =>
    have ho' : t.observers[b + k]? = none := h.observers k ▸ ho
    simp only [Session.tell, ho, ho']
    exact ⟨trivial, h⟩
  | some o =>
    rw [tell_eq ho, tell_eq (h.observers k ▸ ho)]
    exact blind_serve hl _ _ _ ((h.heardBy_own k).note _ _)

theorem tellAll_own (h : Twins a b s t) (ks : List Nat) :
    (tellAll launch n (ks.map (a + ·)) s).1 = (tellAll launch n (ks.map (b + ·)) t).1 ∧
      Twins a b (tellAll launch n (ks.map (a + ·)) s).2
        (tellAll launch n (ks.map (b + ·)) t).2 := by
  induction ks generalizing s t with
  | nil => exact ⟨rfl, h⟩
  | cons k ks ih =>
    obtain ⟨hresult, htwins⟩ := tell_own n hl h.meanwhile k
    simp only [List.map_cons, tellAll]
    rcases hs : Session.tell launch n (a + k) s.meanwhile with ⟨x, s'⟩
    rcases ht : Session.tell launch n (b + k) t.meanwhile with ⟨y, t'⟩
    rw [hs, ht] at hresult htwins
    obtain rfl : x = y := hresult
    cases x with
    | true => exact ih htwins
    | false => exact ⟨rfl, htwins⟩

theorem blind_deliver : Blind (Twins a b) (deliver launch n) := by
  intro s t h
  obtain ⟨ks, hs, ht⟩ := h.own
  have hlistens : ∀ k, s.listensTo n.channel (a + k) = t.listensTo n.channel (b + k) := by
    intro k
    unfold listensTo
    rw [h.observers]
  have hown : s.own.filter (s.listensTo n.channel) =
        (ks.filter fun k => t.listensTo n.channel (b + k)).map (a + ·) ∧
      t.own.filter (t.listensTo n.channel) =
        (ks.filter fun k => t.listensTo n.channel (b + k)).map (b + ·) := by
    rw [hs, ht, List.filter_map, List.filter_map]
    simp only [Function.comp_def, hlistens, and_self]
  obtain ⟨s', t', hs', ht', h'⟩ := h.tellAll_subscribers launch n n.channel
  unfold deliver
  rw [audience_eq, audience_eq, hown.1, hown.2, tellAll_append _ _ _ _ hs',
    tellAll_append _ _ _ _ ht']
  exact tellAll_own n hl h' _

end

theorem blind_deliverBusy (n : Notice) : Blind (Twins a b) fun s => s.deliverBusy n :=
  blind_deliver n fun _ _ _ h => h

theorem parallel_twins : Parallel (Twins a b) where
  state _ _ h := h.state
  wakes _ _ h := h.wakes
  others _ _ h := h.others
  wake c _ _ h := h.wake c
  turn _ _ _ _ hs h :=
    { h with others := rfl, turns := .inr (h.turns.resolve_left (by simp [hs])) }
  setWakes wakes _ _ h := h.setWakes wakes
  pass id line _ _ h := h.modifyState fun e => (e.pass id line).2
  modifyRecord f _ _ h := h.modifyState fun e => { e with record := f e.record }
  deliverBusy := blind_deliverBusy

theorem blind_release (outcome : Except RunError Status) : Blind (Twins a b) (release outcome) := by
  intro s t h
  cases outcome with
  | error e => exact ⟨rfl, h.meanwhile.modifyState (·.finish .failed)⟩
  | ok status =>
    have hdone := (h.meanwhile.modifyState (·.finish status)).meanwhile
    refine ⟨?_, hdone⟩
    simp only [release]
    rw [hdone.state]

end Twins

/-! ### Runs -/

theorem observers_engage {j : Nat} {o : Observer} (h : s.observers[j]? = some o)
    (os : List Observer) : (s.engage os).observers[j]? = some o := by
  obtain ⟨hlt, -⟩ := Array.getElem?_eq_some_iff.mp h
  unfold Session.engage
  rw [Array.getElem?_append_left hlt, h]

theorem PassiveAt.engage (h : s.PassiveAt i) (os : List Observer) : (s.engage os).PassiveAt i := by
  obtain ⟨o, ho, hpassive⟩ := h
  exact ⟨o, observers_engage ho os, hpassive⟩

theorem subscribers_engage (h : ∀ i ∈ s.lasting, s.PassiveAt i) (os : List Observer) (c : Channel) :
    (s.engage os).subscribers c = s.subscribers c := by
  refine List.filter_congr fun i hi => ?_
  obtain ⟨o, ho, -⟩ := h i hi
  simp only [listensTo, observers_engage ho os, ho]

section

variable {S : State → State → Prop} {a b : Nat}

/-- Engines that have become one go on as twins. -/
theorem Peers.engage (h : Peers Eq a b s t) (os : List Observer) :
    Twins a b (s.engage os) (t.engage os) := by
  obtain ⟨n, hs, ht⟩ := h.size
  have hpassive : ∀ i ∈ s.lasting, s.PassiveAt i := fun i hi => (h.lasting_left i hi).2
  have hpassive' : ∀ i ∈ t.lasting, t.PassiveAt i := fun i hi => (h.lasting_right i hi).2
  exact {
    state := h.state
    wakes := h.wakes
    others := h.others
    size := ⟨n + os.length, by simp [Session.engage, hs, Nat.add_assoc],
      by simp [Session.engage, ht, Nat.add_assoc]⟩
    observers := fun k => by
      simp only [Session.engage, Array.getElem?_append, hs, ht, Nat.add_lt_add_iff_left,
        Nat.add_sub_add_left, h.observers]
    lasting_left := fun i hi => ⟨(h.lasting_left i hi).1, (hpassive i hi).engage os⟩
    lasting_right := fun i hi => ⟨(h.lasting_right i hi).1, (hpassive' i hi).engage os⟩
    turns := h.turns.imp_right fun hcount c => by
      rw [subscribers_engage hpassive, subscribers_engage hpassive', hcount]
    own := ⟨List.range' n os.length, by simp [Session.engage, hs, List.map_add_range'],
      by simp [Session.engage, ht, List.map_add_range']⟩ }

theorem Peers.runClaimed (hS : State.Forgotten S) (h : Peers S a b s t)
    (p : Except SyntaxFault Program) (o : Options) :
    (s.runClaimed p o).1 = (t.runClaimed p o).1 ∧
      Twins a b (s.runClaimed p o).2 (t.runClaimed p o).2 := by
  have hstart := (h.meanwhile hS).modifyState (T := Eq) (·.start o.maxSteps) (·.start o.maxSteps)
    (hS.start _ _ _ (h.meanwhile hS).state)
  exact (Twins.parallel_twins.indistinct.followRead p).andThen Twins.blind_release _ _
    (hstart.engage o.observers)

theorem Twins.launch (p : Program) (s t : Session) (h : Twins a b s t) :
    Twins a b (launch p s) (launch p t) := by
  unfold Session.launch Session.claimed
  rw [h.state]
  split
  · exact h
  · split
    · exact h
    · next x _ => exact ((h.modifyState fun _ => x).toPeers.runClaimed State.forgotten_eq _ _).2

/-- What comes of a source that cannot be read, if its observers heard of that. -/
def rejected (f : SyntaxFault) : Bool × Session → Except RunError Trace × Session
  | (true, s) => (.error (.unreadable f), s)
  | (false, s) => (.error .observerFailed, s)

theorem rejectClaimed_eq (f : SyntaxFault) (o : Options) (s : Session) :
    s.rejectClaimed f o = rejected f (((s.meanwhile.modifyState
      (·.reject o.maxSteps (.ofFault f))).engage o.observers).deliver launch
        (.error (.ofFault f))) := rfl

theorem blind_rejected (f : SyntaxFault) {g : Session → Bool × Session} (hg : Blind (Twins a b) g) :
    Blind (Twins a b) fun s => rejected f (g s) := by
  intro s t h
  obtain ⟨hresult, htwins⟩ := hg s t h
  rcases hs : g s with ⟨x, s'⟩
  rcases ht : g t with ⟨y, t'⟩
  rw [hs, ht] at hresult htwins
  obtain rfl : x = y := hresult
  simp only [hs, ht]
  cases x with
  | true => exact ⟨rfl, htwins⟩
  | false => exact ⟨rfl, htwins⟩

theorem Peers.rejectClaimed (hS : State.Forgotten S) (h : Peers S a b s t) (f : SyntaxFault)
    (o : Options) : (s.rejectClaimed f o).1 = (t.rejectClaimed f o).1 ∧
      Twins a b (s.rejectClaimed f o).2 (t.rejectClaimed f o).2 := by
  have hreject := (h.meanwhile hS).modifyState (T := Eq) (·.reject o.maxSteps (.ofFault f))
    (·.reject o.maxSteps (.ofFault f)) (hS.reject _ _ _ _ (h.meanwhile hS).state)
  rw [rejectClaimed_eq, rejectClaimed_eq]
  exact blind_rejected f (Twins.blind_deliver _ Twins.launch) _ _ (hreject.engage o.observers)

/-- A run that is given up before it begins leaves each engine as that was. -/
theorem Peers.executeClaimed (hS : State.Forgotten S) (h : Peers S a b s t) (source : String)
    (o : Options) : (s.executeClaimed source o).1 = (t.executeClaimed source o).1 ∧
      (Twins a b (s.executeClaimed source o).2 (t.executeClaimed source o).2 ∨
        s.executeClaimed source o = s.abandonClaimed ∧
          t.executeClaimed source o = t.abandonClaimed) := by
  unfold Session.executeClaimed
  cases read source with
  | error f => exact (h.rejectClaimed hS f o).imp_right .inl
  | ok p =>
    dsimp only
    cases Instrument.decorate "" p with
    | ok text => exact (h.runClaimed hS (read text) o).imp_right .inl
    | error e => exact ⟨rfl, .inr ⟨rfl, rfl⟩⟩

end

/-! ### An old engine and a new one -/

/-- A session with an engine that has been used, and one with a new engine. The same others act on
both in the same turns, and their lasting observers ask for nothing. -/
structure Anew (s t : Session) : Prop where
  new : t.state = {}
  wakes : s.wakes = t.wakes
  others : s.others = t.others
  passive_left : ∀ i ∈ s.lasting, s.PassiveAt i
  passive_right : ∀ i ∈ t.lasting, t.PassiveAt i
  turns : s.others = [] ∨ ∀ c, (s.subscribers c).length = (t.subscribers c).length

variable {a b : Nat}

theorem PassiveAt.lt_size (h : s.PassiveAt i) : i < s.observers.size := by
  obtain ⟨o, ho, -⟩ := h
  exact (Array.getElem?_eq_some_iff.mp ho).1

/-- The claim that every run begins with makes them peers. -/
theorem Anew.claim (h : s.Anew t) (hsettled : s.state.Settled) :
    Peers State.Readied s.observers.size t.observers.size s.claim t.claim where
  state := by
    unfold Session.claim
    rw [h.new]
    exact State.readied_claim hsettled
  wakes := h.wakes
  others := h.others
  size := ⟨0, rfl, rfl⟩
  observers k := by
    unfold Session.claim
    rw [Array.getElem?_eq_none (Nat.le_add_right ..), Array.getElem?_eq_none (Nat.le_add_right ..)]
  lasting_left i hi := ⟨(h.passive_left i hi).lt_size, h.passive_left i hi⟩
  lasting_right i hi := ⟨(h.passive_right i hi).lt_size, h.passive_right i hi⟩
  turns := h.turns

/-- A claim that is given up leaves the engine as it was. -/
theorem keeps_abandonClaimed (hsettled : s.state.Settled) :
    s.state.Keeps s.claim.abandonClaimed.2.state := by
  obtain ⟨-, hkeeps⟩ := keeps_surroundings.meanwhile s.claim ⟨hsettled.running, hsettled.paused⟩
  exact ⟨hkeeps.status, hkeeps.record⟩

/-- What is done with a claimed engine comes to the same, unless it is not claimed at all or nothing
is done with it. -/
theorem Anew.claimed {α : Type} (h : s.Anew t) (hsettled : s.state.Settled)
    (hfree : s.state.busy = false) (o : Options) {f : Session → Except RunError α × Session}
    {A : Prop} (hf : ∀ a b, Peers State.Readied a b s.claim t.claim →
      (f s.claim).1 = (f t.claim).1 ∧ (Twins a b (f s.claim).2 (f t.claim).2 ∨ A)) :
    (s.claimed o f).1 = (t.claimed o f).1 ∧
      ((s.claimed o f).2.state = (t.claimed o f).2.state ∨
        o.speed <= 0 ∧ (s.claimed o f).2 = s ∧ (t.claimed o f).2 = t ∨
        s.claimed o f = f s.claim ∧ t.claimed o f = f t.claim ∧ A) := by
  have hfree' : t.state.busy = false := by simp [h.new]
  obtain ⟨hspeed, hs⟩ | ⟨-, hbusy, -⟩ | ⟨hspeed, -, hs⟩ := claimed_cases o s f
  · rw [hs, Session.claimed, if_pos hspeed]
    exact ⟨rfl, .inr (.inl ⟨hspeed, rfl, rfl⟩)⟩
  · rw [hfree] at hbusy
    cases hbusy
  · have ht : t.claimed o f = f t.claim := by
      rw [Session.claimed, if_neg hspeed]
      simp only [State.claim?, hfree', Bool.false_eq_true, ↓reduceIte]
      rfl
    rw [hs, ht]
    obtain ⟨hresult, htwins | ha⟩ := hf _ _ (h.claim hsettled)
    · exact ⟨hresult, .inl htwins.state⟩
    · exact ⟨hresult, .inr (.inr ⟨rfl, rfl, ha⟩)⟩

end Session

/-- Whatever was done with an engine before, in whatever order the moves of those who used it came,
once it is free a run on it is the run that a new engine gives: it has the same result, and it
leaves the engine in the same state. Where the options make no sense nothing runs, and nothing
changes. Of a source that cannot be decorated nothing runs either, and what the last run left is
left as it was. -/
theorem runs_begin_anew {x : Shared} (hx : Shared.Moves {} x) (hfree : x.state.busy = false)
    {s t : Session} (hs : s.state = x.state) (hst : s.Anew t) (source : String) (o : Options) :
    ((s.execute source o).1 = (t.execute source o).1 ∧
      ((s.execute source o).2.state = (t.execute source o).2.state ∨
        o.speed <= 0 ∧ (s.execute source o).2 = s ∧ (t.execute source o).2 = t ∨
        (s.execute source o).1 = .error .misplaced ∧
          s.state.Keeps (s.execute source o).2.state ∧
          t.state.Keeps (t.execute source o).2.state)) ∧
    (s.executeDecorated source o).1 = (t.executeDecorated source o).1 ∧
      ((s.executeDecorated source o).2.state = (t.executeDecorated source o).2.state ∨
        o.speed <= 0 ∧ (s.executeDecorated source o).2 = s ∧
          (t.executeDecorated source o).2 = t) := by
  have hsettled : s.state.Settled := hs ▸ (hx.sound Shared.sound_new).settled hfree
  have hbusy : s.state.busy = false := hs ▸ hfree
  rw [Session.execute_eq, Session.execute_eq]
  constructor
  · obtain ⟨hresult, hleft⟩ := hst.claimed hsettled hbusy o
      fun _ _ h => h.executeClaimed State.forgotten_readied source o
    refine ⟨hresult, hleft.imp_right (Or.imp_right ?_)⟩
    rintro ⟨hsrun, htrun, hs, ht⟩
    rw [hsrun, htrun, hs, ht]
    exact ⟨rfl, Session.keeps_abandonClaimed hsettled,
      Session.keeps_abandonClaimed (hst.new ▸ ⟨⟨rfl, rfl⟩, trivial⟩)⟩
  · obtain ⟨hresult, hleft⟩ := hst.claimed (A := False) hsettled hbusy o
      fun _ _ h => (h.runClaimed State.forgotten_readied (read source) o).imp_right .inl
    exact ⟨hresult, hleft.imp_right fun h => h.resolve_right fun h => h.2.2⟩

/-- Left by a run that was paused after its first step, let one step further, and stopped before it
took that step. -/
def leftover : Shared := ⟨{
  status := .stopped, allowance := true, stopRequested := true, maxSteps := some 2
  record := ({} : Record).addStep 0 1 }, 0, 0⟩

theorem moves_leftover : Shared.Moves {} leftover :=
  ((((((ReflTransGen.single (.claim 0 0 rfl)).tail (.start _ 0 0 (some 2))).tail
    (.pass _ 0 0 0 1 rfl)).tail (.control _ 0 1 .pause)).tail (.control _ 0 1 .stepForward)).tail
    (.control _ 0 1 .stop)).tail (.finish _ 0 0 (.inl rfl))

/-- Hears of steps. -/
def listener : Observer where
  name := "listener"
  channel := .step
  answer _ := []

def usedSession : Session where
  state := leftover.state
  observers := #[listener]
  lasting := [0]

theorem anew_usedSession : usedSession.Anew {} where
  new := rfl
  wakes := rfl
  others := rfl
  passive_left i hi := by
    obtain rfl : i = 0 := by simpa [usedSession] using hi
    exact ⟨listener, rfl, fun _ => rfl⟩
  passive_right i hi := by cases hi
  turns := .inl rfl

theorem usedSession_begins_anew :
    Shared.Moves {} leftover ∧ leftover.state.busy = false ∧ usedSession.state = leftover.state ∧
      usedSession.Anew {} ∧
      (usedSession.execute "let x = 1; x++;" {}).1 =
        (({} : Session).execute "let x = 1; x++;" {}).1 :=
  ⟨moves_leftover, rfl, rfl, anew_usedSession,
    (runs_begin_anew moves_leftover rfl rfl anew_usedSession "let x = 1; x++;" {}).1.1⟩

end Stepper.Engine
