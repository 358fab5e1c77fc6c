import Stepper.Proofs.Rounds

/-!
Who writes a variable. A name in a scope is assigned to only by code that works inside this scope.
To say so of whole runs there is a machine that watches one binding. It looks at the binding before
anything is evaluated, and after code inside the scope has been, and stops everything where the
binding is not what it was; after code outside it does not look. Whatever is run, the watching
machine either goes the way of the machine, and the binding is what it was all along, or it has been
stopped, since code inside the scope has written the variable.
-/
namespace Stepper.Machine

open Syntax

variable {α β σ : Type} {s : ScopeRef} {x : String} {b : Option Binding} {t : Targets}

/-! ### Outside a scope -/

namespace Scopes

variable {S S' : Scopes} {e f g p : ScopeRef} {name : String}

/-- A scope there is, and not one inside the other. -/
structure Outside (S : Scopes) (s e : ScopeRef) : Prop where
  lt : e.index < S.all.size
  not_inside : ¬ S.Inside s e

theorem Inside.index_le (h : S.Inside f e) : f.index ≤ e.index := by
  induction h with
  | here => exact Nat.le_refl _
  | around hp _ ih => exact Nat.le_trans ih (Nat.le_of_lt (parent?_lt hp))

theorem inside_parent (h : S.Inside f e) (hne : e ≠ f) (hp : S.parent? e = some p) :
    S.Inside f p := by
  cases h with
  | here => exact absurd rfl hne
  | around hp' h =>
    rw [hp] at hp'
    cases hp'
    exact h

/-- Where scopes lie in each other is settled when they are made. -/
theorem Evolves.inside_of_inside (h : S.Evolves S') (he : e.index < S.all.size)
    (hinside : S'.Inside f e) : S.Inside f e := by
  induction hinside with
  | here => exact .here
  | around hp _ ih =>
    rw [h.parent? he] at hp
    exact .around hp (ih (Nat.lt_trans (parent?_lt hp) he))

theorem Evolves.outside (h : S.Evolves S') (he : S.Outside s e) : S'.Outside s e :=
  ⟨Nat.lt_of_lt_of_le he.lt h.size, fun hinside => he.not_inside (h.inside_of_inside he.lt hinside)⟩

theorem Outside.ne (h : S.Outside s e) : e ≠ s := fun he => h.not_inside (he ▸ .here)

theorem inside_holder? (h : S.holder? name e = some g) : S.Inside g e := by
  fun_induction holder? S name e with
  | case1 e hbound =>
    cases h
    exact .here
  | case2 e hfree hp => cases h
  | case3 e hfree p hp ih => exact .around hp (ih h)

/-- An assignment goes to a scope around the one it is made from. -/
theorem inside_assignable {kind : BindingKind} (h : S.assignable e name = .ok (g, kind)) :
    S.Inside g e := by
  unfold assignable at h
  cases hholder : S.holder? name e with
  | none =>
    rw [hholder] at h
    cases h
    exact S.inside_outermost e
  | some f =>
    rw [hholder] at h
    have hf := inside_holder? hholder
    grind

end Scopes

/-- Names are declared in other scopes, and assigned to from scopes outside. -/
def Means.outside (s : ScopeRef) (S : Scopes) : Means :=
  { all with opens := fun e => e ≠ s, assigns := fun e => S.Outside s e }

theorem Means.unbound_outside (S : Scopes) : (outside s S).Unbound :=
  ⟨fun _ => trivial, fun _ _ _ => trivial, fun _ => trivial, trivial⟩

/-! ### The way of a course -/

/-- The second course goes the way of the first, through states of one kind, or is stopped in a
state of another. -/
inductive Course.Goes (P C : World → Prop) : Course α → Course α → Prop
  | done (a : α) {v : World} (h : P v) : Goes P C (.done a v) (.done a v)
  | broke (i : Interrupt) {v : World} (h : P v) : Goes P C (.broke i v) (.broke i v)
  | tell (c : Call) {v : World} {next next' : Reply → Course α} (h : P v)
    (hnext : ∀ r, Goes P C (next r) (next' r)) : Goes P C (.tell c v next) (.tell c v next')
  | stopped (y : Course α) {v : World} (h : C v) : Goes P C y (.broke .stopped v)

namespace Course.Goes

variable {P Q C : World → Prop} {y z : Course α}

theorem mono (h : y.Goes P C z) (hPQ : ∀ v, P v → Q v) : y.Goes Q C z := by
  induction h with
  | done a h => exact .done a (hPQ _ h)
  | broke i h => exact .broke i (hPQ _ h)
  | tell c h _ ih => exact .tell c (hPQ _ h) ih
  | stopped y h => exact .stopped y h

theorem of_course {y : Outcome α} (h : P y.world) : y.course.Goes P C y.course := by
  cases y with
  | done a v => exact .done a h
  | broke i v => exact .broke i h

theorem bind {f g : α → World → Course β} (h : y.Goes P C z)
    (hf : ∀ a v, P v → (f a v).Goes P C (g a v)) : (y.bind f).Goes P C (z.bind g) := by
  induction h with
  | done a h => exact hf a _ h
  | broke i h => exact .broke i h
  | tell c h _ ih => exact .tell c h ih
  | stopped y h => exact .stopped _ h

/-- Who looks at what a part came to lets it pass that everything is stopped. -/
theorem handle {f g : Except Interrupt α → World → Course β} (h : y.Goes P C z)
    (hf : ∀ r, r ≠ .error .stopped → ∀ v, P v → (f r v).Goes P C (g r v))
    (hpass : ∀ v, f (.error .stopped) v = .broke .stopped v)
    (hpass' : ∀ v, g (.error .stopped) v = .broke .stopped v) :
    (y.attempt.bind f).Goes P C (z.attempt.bind g) := by
  induction h with
  | done a h => exact hf (.ok a) nofun _ h
  | @broke i v h =>
    change (f (.error i) v).Goes P C (g (.error i) v)
    by_cases hi : i = .stopped
    · subst hi
      rw [hpass, hpass']
      exact .broke _ h
    · exact hf _ (by simpa using hi) _ h
  | tell c h _ ih => exact .tell c h ih
  | @stopped y v h =>
    change (y.attempt.bind f).Goes P C (g (.error .stopped) v)
    rw [hpass']
    exact .stopped _ h

theorem mapWorld (h : y.Goes P C z) {f : World → World} (hP : ∀ v, P v → P (f v))
    (hC : ∀ v, C v → C (f v)) : (y.mapWorld f).Goes P C (z.mapWorld f) := by
  induction h with
  | done a h => exact .done a (hP _ h)
  | broke i h => exact .broke i (hP _ h)
  | tell c h _ ih => exact .tell c h ih
  | stopped y h => exact .stopped _ (hC _ h)

/-- Under a host, both come to the same, or the second is stopped. -/
theorem drive (h : y.Goes P C z) (host : Host σ) (r : σ) :
    (z.drive host r = y.drive host r ∧ P (y.drive host r).1.world) ∨
      ∃ v r', z.drive host r = (.broke .stopped v, r') ∧ C v := by
  induction h generalizing r with
  | done a h => exact .inl ⟨rfl, h⟩
  | broke i h => exact .inl ⟨rfl, h⟩
  | tell c h _ ih => exact ih _ _
  | @stopped y v h => exact .inr ⟨v, r, rfl, h⟩

end Course.Goes

/-- What single operations lead to by some means, from states of one kind. -/
structure Means.Leads (K : Means) (I : World → Prop) (R : World → World → Prop) (C : World → Prop) :
    Prop where
  unbound : K.Unbound
  descends : K.descends
  trans : ∀ {u w v}, R u w → R w v → R u v
  next : ∀ {w v}, I w → R w v → I v
  operates : ∀ {w v : World}, I w → w.Operates v → R w v
  /-- It is decided what `this` is in a scope in which it was not before. -/
  decides : ∀ {w v : World} {e} a, I w → (w.scopes.get e).this = none → R w v →
    R w (v.withThis e a)
  declare : ∀ {w : World} {e} name kind value, I w → K.opens e →
    R w ⟨w.heap, w.scopes.declare e name kind value, w.depth⟩
  assign : ∀ {w : World} {e} name v, I w → K.assigns e → R w (Action.assigned e name v w).world
  fresh : ∀ {w : World} scope, I w → K.opens (w.scopes.alloc scope).1
  deeper : ∀ {w : World} depth, I w → R w { w with depth }
  stopped : ∀ {w : World} depth, C w → C { w with depth }

/-- Among two evaluators the second goes the way of the first from states of one kind on. -/
structure Evaluator.Goes (I : World → Prop) (R : World → World → Prop) (C : World → Prop)
    (m m' : Evaluator) : Prop where
  eval : ∀ n e isHead w, I w → (m.eval n e isHead w).Goes (R w) C (m'.eval n e isHead w)
  exec : ∀ n e labels w, I w → (m.exec n e labels w).Goes (R w) C (m'.exec n e labels w)
  bind : ∀ n v e mode w, I w → (m.bind n v e mode w).Goes (R w) C (m'.bind n v e mode w)
  call : ∀ f this args w, I w → (m.call f this args w).Goes (R w) C (m'.call f this args w)
  construct : ∀ f args newTarget w, I w →
    (m.construct f args newTarget w).Goes (R w) C (m'.construct f args newTarget w)

namespace Action

variable {K : Means} {I : World → Prop} {R : World → World → Prop} {C : World → Prop}

/-- An action goes the same way among evaluators of which the second goes the way of the first. -/
def Goes (I : World → Prop) (R : World → World → Prop) (C : World → Prop) (y : Action α) : Prop :=
  ∀ (c : Context) (m : Evaluator), c.inner.Goes I R C m → ∀ w : World, I w →
    (y c w).Goes (R w) C (y { c with inner := m } w)

section

variable (hK : K.Leads I R C)

include hK

/-- What comes next begins in a state that was led to. -/
theorem goes_next {y z : World → Course α} {w v : World}
    (hy : ∀ v, I v → (y v).Goes (R v) C (z v)) (hw : I w) (hv : R w v) :
    (y v).Goes (R w) C (z v) :=
  (hy v (hK.next hw hv)).mono fun _ => hK.trans hv

theorem Goes.bind {y : Action α} {f : α → Action β} (hy : y.Goes I R C)
    (hf : ∀ a, (f a).Goes I R C) : (y >>= f).Goes I R C :=
  fun c m hm w hw => (hy c m hm w hw).bind fun a _ => goes_next hK (hf a c m hm) hw

theorem goes_tell (f : Heap → Call) : (tell f).Goes I R C := by
  refine fun c m _ w hw => ?_
  have hself : R w w := hK.operates hw (.refl w)
  refine .tell _ hself fun r => ?_
  cases r with
  | proceed => exact .done () hself
  | _ => exact .broke _ hself

theorem Composed.goes {y : Action α} (h : y.Composed K t) : y.Goes I R C := by
  intro c m hm
  induction h with
  | atOnce f hf hw => exact fun w hI => .of_course (hK.operates hI (hw w))
  | declare e name kind value he => exact fun w hI => .done () (hK.declare name kind value hI he)
  | assign e name v he =>
    intro w hI
    rw [assign_eq, assign_eq]
    exact .of_course (hK.assign name v hI he)
  | @within _ _ scope f hf ih =>
    intro w hI
    have hinside := goes_next hK (ih _ (hK.fresh scope hI)) hI
      (hK.operates hI (w.operates_allocScope scope))
    exact hinside
  | @decides _ e x hx ihx =>
    intro w hI
    rw [decideThis_eq, decideThis_eq]
    split
    · exact .broke decidedTwice (hK.operates hI (.refl w))
    · next hnone =>
      refine (ihx w hI).bind fun v u hu => .done v ?_
      exact hK.decides v hI (by simpa using hnone) hu
  | source hf ih => exact ih c.source (hK.unbound.source _)
  | realm => exact fun w hI => .done _ (hK.operates hI (.refl w))
  | room => exact fun w hI => .done _ (hK.operates hI (.refl w))
  | tell f hf => exact goes_tell hK f c m hm
  | look r hf ih => exact fun w => ih (w.heap.get r) (hK.unbound.carries _) w
  | bind hx hf ihx ihf =>
    exact fun w hI => (ihx w hI).bind fun a _ => goes_next hK (ihf a) hI
  | @handle _ _ _ _ y f hy hf hstop ihy ihf =>
    intro w hI
    exact (ihy w hI).handle (f := fun r v => f r c v) (g := fun r v => f r { c with inner := m } v)
      (fun r hr _ => goes_next hK (ihf r hr fun _ _ => .inl hK.unbound.leaks) hI)
      (fun v => congrFun (congrFun hstop c) v) fun v => congrFun (congrFun hstop _) v
  | deeper _ hy ihy =>
    intro w hI
    refine (goes_next hK ihy hI (hK.deeper (w.depth + 1) hI)).mapWorld (fun v hv => ?_)
      fun _ => hK.stopped _
    exact hK.trans hv (hK.deeper _ (hK.next hI hv))
  | eval n e isHead hn => exact hm.eval n e isHead
  | exec n e labels hn htu he => exact hm.exec n e labels
  | bindTarget n v e mode hn he => exact hm.bind n v e mode
  | call f this args => exact hm.call f this args
  | construct f args newTarget => exact hm.construct f args newTarget

end

end Action
end Stepper.Machine

namespace Stepper.Execution

open Syntax Machine Machine.Action Builtin

section

variable {K : Means} {I : World → Prop} {R : World → World → Prop} {C : World → Prop}
  (hK : K.Leads I R C)

include hK

theorem callConsole_goes (k : ConsoleKind) (args : List Value) : (callConsole k args).Goes I R C := by
  have htold (f : Heap → Call) : (do tell f; return Value.undefined).Goes I R C :=
    (goes_tell hK f).bind hK fun _ => (composed_pure (K := K) (t := {}) _).goes hK
  intro c m hm w hI
  change ((if c.wantsText then _ else _ : Action Value) c w).Goes (R w) C
    ((if c.wantsText then _ else _ : Action Value) { c with inner := m } w)
  by_cases htext : c.wantsText = true
  · rw [if_pos htext]
    have htexts := composed_collect (K := K) (t := {}) (fun v => composed_consoleText v) args
    exact Goes.bind hK (htexts.goes hK) (fun pieces => htold _) c m hm w hI
  · rw [if_neg htext]
    exact Goes.bind hK ((Composed.room (K := K) (t := {})).goes hK) (fun room => htold _) c m hm w hI

theorem callValue_goes (f this : Value) (args : List Value) :
    (callValue f this args).Goes I R C := by
  intro c m hm w hI
  obtain ⟨y, hy | ⟨k, rfl⟩, hcall⟩ := callValue_cases (K := K) (u := {}) args this
    hK.unbound.hereditary hK.descends f (hK.unbound.sound w.heap)
  · rw [hcall, hcall]
    exact hy.goes hK c m hm w hI
  · rw [hcall, hcall]
    exact callConsole_goes hK k args c m hm w hI

end

end Stepper.Execution

namespace Stepper.Machine

open Syntax

variable {α β σ : Type} {s : ScopeRef} {x : String} {b : Option Binding} {t : Targets}

/-! ### The watching machine -/

/-- The state evolves from one that has the scope, and the binding is as expected. -/
structure World.Keeps (s : ScopeRef) (x : String) (b : Option Binding) (w v : World) : Prop where
  evolves : w.Evolves v
  lt : s.index < w.scopes.all.size
  same : v.scopes.binding? s x = b

theorem World.Keeps.self {w v : World} (h : w.Keeps s x b v) : v.Keeps s x b v :=
  ⟨.refl v, Nat.lt_of_lt_of_le h.lt h.evolves.scopes.size, h.same⟩

theorem World.Keeps.trans {w v u : World} (h : w.Keeps s x b v) (h' : v.Keeps s x b u) :
    w.Keeps s x b u := ⟨h.evolves.trans h'.evolves, h.lt, h'.same⟩

/-- The binding is not as expected. -/
def World.Changed (s : ScopeRef) (x : String) (b : Option Binding) (v : World) : Prop :=
  v.scopes.binding? s x ≠ b

/-- The second course goes the way of the first, with the binding as expected, or is stopped where
it is not. -/
def Course.Watched (s : ScopeRef) (x : String) (b : Option Binding) (w : World)
    (y z : Course α) : Prop := y.Goes (w.Keeps s x b) (World.Changed s x b) z

open Classical in
/-- The course, stopped at the first state in which the binding is not as expected. -/
noncomputable def Course.checked (s : ScopeRef) (x : String) (b : Option Binding) :
    Course α → Course α
  | .done a w => if w.Changed s x b then .broke .stopped w else .done a w
  | .broke i w => if w.Changed s x b then .broke .stopped w else .broke i w
  | .tell c w next => if w.Changed s x b then .broke .stopped w
    else .tell c w fun r => (next r).checked s x b

open Classical in
/-- What is run only if the binding is as expected. -/
noncomputable def Course.guarded (s : ScopeRef) (x : String) (b : Option Binding)
    (y : World → Course α) (w : World) : Course α :=
  if w.Changed s x b then .broke .stopped w else y w

open Classical in
/-- What is run in a scope: if the scope is not outside, the binding is looked at afterwards, too.
-/
noncomputable def Course.guardedIn (s : ScopeRef) (x : String) (b : Option Binding) (e : ScopeRef)
    (y : World → Course α) : World → Course α :=
  guarded s x b fun w => if w.scopes.Outside s e then y w else (y w).checked s x b

/-- An evaluator that looks at the binding before it evaluates anything, and again after code inside
the scope. -/
noncomputable def Evaluator.watching (s : ScopeRef) (x : String) (b : Option Binding)
    (m : Evaluator) : Evaluator where
  eval n e isHead := Course.guardedIn s x b e (m.eval n e isHead)
  exec n e labels := Course.guardedIn s x b e (m.exec n e labels)
  bind n v e mode := Course.guardedIn s x b e (m.bind n v e mode)
  call f this args := Course.guarded s x b (m.call f this args)
  construct f args newTarget := Course.guarded s x b (m.construct f args newTarget)

/-- States that have the scope. -/
def World.HasScope (s : ScopeRef) (w : World) : Prop := s.index < w.scopes.all.size

namespace Course

theorem goes_checked {w : World} (hs : w.HasScope s) {y z : Course α}
    (h : y.Goes w.Evolves (World.Changed s x b) z) : y.Watched s x b w (z.checked s x b) := by
  induction h with
  | @done a v h =>
    unfold checked
    split
    · exact .stopped _ ‹_›
    · exact .done a ⟨h, hs, Classical.not_not.mp ‹_›⟩
  | @broke i v h =>
    unfold checked
    split
    · exact .stopped _ ‹_›
    · exact .broke i ⟨h, hs, Classical.not_not.mp ‹_›⟩
  | @tell c v next next' h _ ih =>
    unfold checked
    split
    · exact .stopped _ ‹_›
    · exact .tell c ⟨h, hs, Classical.not_not.mp ‹_›⟩ ih
  | @stopped y v h =>
    unfold checked
    rw [if_pos h]
    exact .stopped y h

theorem watched_guarded {w : World} (hs : w.HasScope s) {y : Course α} {z : World → Course α}
    (h : w.Keeps s x b w → y.Watched s x b w (z w)) : y.Watched s x b w (guarded s x b z w) := by
  unfold guarded
  split
  · exact .stopped _ ‹_›
  · exact h ⟨.refl w, hs, Classical.not_not.mp ‹_›⟩

theorem watched_guardedIn {w : World} (hs : w.HasScope s) {e : ScopeRef} {y : Course α}
    {z : World → Course α}
    (houtside : w.Keeps s x b w → w.scopes.Outside s e → y.Watched s x b w (z w))
    (hinside : y.Goes w.Evolves (World.Changed s x b) (z w)) :
    y.Watched s x b w (guardedIn s x b e z w) := watched_guarded hs fun hk => by
  split
  · exact houtside hk ‹_›
  · exact goes_checked hs hinside

end Course

/-- The second evaluator watches the binding for the first. -/
def Evaluator.Watched (s : ScopeRef) (x : String) (b : Option Binding) (m m' : Evaluator) : Prop :=
  m.Goes (World.HasScope s) (World.Keeps s x b) (World.Changed s x b) m'

/-- Without a bound, a state that has the scope leads to others that have it. -/
theorem leads_all (s : ScopeRef) (x : String) (b : Option Binding) :
    Means.all.Leads (World.HasScope s) World.Evolves (World.Changed s x b) where
  unbound := Means.unbound_all
  descends := trivial
  trans := .trans
  next hs h := Nat.lt_of_lt_of_le hs h.scopes.size
  operates _ h := h.toEvolves
  decides a _ _ h := h.trans (World.steps_withThis _ _ a).toEvolves
  declare _ _ _ _ _ := ⟨.refl _, Scopes.evolves_declare ..⟩
  assign name v _ _ := (Action.steps_assigned _ name v _).toEvolves
  fresh _ _ := trivial
  deeper depth _ := World.evolves_depth _ depth
  stopped _ h := h

/-- Outside of a scope the bindings of the scope are kept. -/
theorem leads_outside (s : ScopeRef) (x : String) (b : Option Binding) (S : Scopes) :
    (Means.outside s S).Leads (fun w => S.Evolves w.scopes ∧ w.Keeps s x b w) (World.Keeps s x b)
      (World.Changed s x b) where
  unbound := Means.unbound_outside S
  descends := trivial
  trans := .trans
  next hw h := ⟨hw.1.trans h.evolves.scopes, h.self⟩
  operates hw h := ⟨h.toEvolves, hw.2.lt, (h.binding s x hw.2.lt).trans hw.2.same⟩
  decides a _ _ h := ⟨h.evolves.trans (World.steps_withThis _ _ a).toEvolves, h.lt,
    (Scopes.binding?_this _ _ a s x).trans h.same⟩
  declare name kind value hw he := by
    refine ⟨⟨.refl _, Scopes.evolves_declare ..⟩, hw.2.lt, ?_⟩
    unfold Scopes.declare
    split
    · exact hw.2.same
    · exact (Scopes.binding?_setBinding_of_ne (fun h => he h.1.symm) _).trans hw.2.same
  assign {w e} name v hw he := by
    refine ⟨(Action.steps_assigned e name v w).toEvolves, hw.2.lt, ?_⟩
    rcases Action.assigned_cases e name v w with ⟨_, -, h⟩ | ⟨f, kind, hok, h⟩
    · exact h ▸ hw.2.same
    · have hne : ¬ (s = f ∧ x = name) := fun hsf =>
        (hw.1.outside he).not_inside (hsf.1 ▸ Scopes.inside_assignable hok)
      rw [h]
      exact (Scopes.binding?_setBinding_of_ne hne _).trans hw.2.same
  fresh {w} scope hw := fun h => Nat.ne_of_gt hw.2.lt (congrArg ScopeRef.index h)
  deeper depth hw := ⟨World.evolves_depth _ depth, hw.2.lt, hw.2.same⟩
  stopped _ h := h

end Stepper.Machine

namespace Stepper.Execution

open Syntax Machine Machine.Action Builtin

variable {s : ScopeRef} {x : String} {b : Option Binding}

/-- The evaluator for some levels that watches a binding. -/
noncomputable def watchingEvaluator (s : ScopeRef) (x : String) (b : Option Binding)
    (source : String) (wantsText : Bool) : Nat → Evaluator
  | 0 => Evaluator.watching s x b exhausted
  | levels + 1 => Evaluator.watching s x b (evaluatorIn
      (contextOver source wantsText levels (watchingEvaluator s x b source wantsText levels)))

theorem watched_from {S : Scopes} {m m' : Evaluator} (hm : m.Watched s x b m') :
    m.Goes (fun w => S.Evolves w.scopes ∧ w.Keeps s x b w) (World.Keeps s x b)
      (World.Changed s x b) m' :=
  ⟨fun _ _ _ w hw => hm.eval _ _ _ w hw.2.lt, fun _ _ _ w hw => hm.exec _ _ _ w hw.2.lt,
    fun _ _ _ _ w hw => hm.bind _ _ _ _ w hw.2.lt, fun _ _ _ w hw => hm.call _ _ _ w hw.2.lt,
    fun _ _ _ w hw => hm.construct _ _ _ w hw.2.lt⟩

/-- Outside of the scope an action is watched by leaving it alone. -/
theorem watched_of_composed {α : Type} {t : Targets} {S : Scopes} {y : Action α}
    (hy : y.Composed (.outside s S) t) {c : Context} {m : Evaluator} (hm : c.inner.Watched s x b m)
    {w : World} (hw : S.Evolves w.scopes) (hk : w.Keeps s x b w) :
    (y c w).Watched s x b w (y { c with inner := m } w) := by
  exact hy.goes (leads_outside s x b S) c m (watched_from hm) w ⟨hw, hk⟩

/-- Inside the scope, too, an action goes the same way among what is watched. -/
theorem goes_of_composed {α : Type} {t : Targets} {y : Action α} (hy : y.Composed .all t)
    {c : Context} {m : Evaluator} (hm : c.inner.Watched s x b m) {w : World} (hs : w.HasScope s) :
    (y c w).Goes w.Evolves (World.Changed s x b) (y { c with inner := m } w) := by
  have hmall : c.inner.Goes (World.HasScope s) World.Evolves (World.Changed s x b) m :=
    ⟨fun _ _ _ w hs => (hm.eval _ _ _ w hs).mono fun _ h => h.evolves,
      fun _ _ _ w hs => (hm.exec _ _ _ w hs).mono fun _ h => h.evolves,
      fun _ _ _ _ w hs => (hm.bind _ _ _ _ w hs).mono fun _ h => h.evolves,
      fun _ _ _ w hs => (hm.call _ _ _ w hs).mono fun _ h => h.evolves,
      fun _ _ _ w hs => (hm.construct _ _ _ w hs).mono fun _ h => h.evolves⟩
  exact hy.goes (leads_all s x b) c m hmall w hs

theorem evaluatorIn_watched {c : Context} {m : Evaluator} (hm : c.inner.Watched s x b m) :
    (evaluatorIn c).Watched s x b (.watching s x b (evaluatorIn { c with inner := m })) where
  eval n e isHead w hs := by
    have hK := Means.unbound_outside (s := s) w.scopes
    refine Course.watched_guardedIn hs (fun hk hout => ?_) ?_
    · exact watched_of_composed (composed_evaluate (t := {}) e hK.hereditary (hK.expression n) hout
        isHead) hm (.refl _) hk
    · exact goes_of_composed (composed_evaluate (t := {}) e Means.hereditary_all
        (Means.expression_all n) trivial isHead) hm hs
  exec n e labels w hs := by
    have hK := Means.unbound_outside (s := s) w.scopes
    refine Course.watched_guardedIn hs (fun hk hout => ?_) ?_
    · exact watched_of_composed (composed_execute (t := {}) hK.hereditary hout.ne
        (hK.confined {} labels n)) hm (.refl _) hk
    · exact goes_of_composed (composed_execute (t := {}) Means.hereditary_all trivial trivial) hm hs
  bind n v e mode w hs := by
    have hK := Means.unbound_outside (s := s) w.scopes
    refine Course.watched_guardedIn hs (fun hk hout => ?_) ?_
    · exact watched_of_composed (composed_bindPattern (t := {}) e v mode hK.hereditary
        (hK.expression n) (fun _ _ => hout.ne) hout) hm (.refl _) hk
    · exact goes_of_composed (composed_bindPattern (t := {}) e v mode Means.hereditary_all
        (Means.expression_all n) (fun _ _ => trivial) trivial) hm hs
  call f this args w hs := Course.watched_guarded hs fun hk =>
    callValue_goes (leads_outside s x b w.scopes) f this args c m (watched_from hm) w ⟨.refl _, hk⟩
  construct f args newTarget w hs := Course.watched_guarded hs fun hk =>
    watched_of_composed (composed_constructValue (u := {}) args newTarget
      (Means.unbound_outside (s := s) w.scopes).hereditary trivial f) hm (.refl _) hk

theorem exhausted_watched : exhausted.Watched s x b (.watching s x b exhausted) := by
  have hkept {α : Type} (w : World) (hk : w.Keeps s x b w) :
      (Course.broke (.fault .nestingTooDeep) w : Course α).Watched s x b w
        (.broke (.fault .nestingTooDeep) w) := .broke _ hk
  have hin {α : Type} (e : ScopeRef) (w : World) (hs : w.HasScope s) :
      (Course.broke (.fault .nestingTooDeep) w : Course α).Watched s x b w
        (Course.guardedIn s x b e (.broke (.fault .nestingTooDeep)) w) :=
    Course.watched_guardedIn hs (fun hk _ => hkept w hk) (.broke _ (.refl w))
  have hat {α : Type} (w : World) (hs : w.HasScope s) :
      (Course.broke (.fault .nestingTooDeep) w : Course α).Watched s x b w
        (Course.guarded s x b (.broke (.fault .nestingTooDeep)) w) :=
    Course.watched_guarded hs (hkept w)
  exact ⟨fun _ e _ => hin e, fun _ e _ => hin e, fun _ _ e _ => hin e, fun _ _ _ => hat,
    fun _ _ _ => hat⟩

theorem evaluator_watched (source : String) (wantsText : Bool) (levels : Nat) :
    (evaluator source wantsText levels).Watched s x b
      (watchingEvaluator s x b source wantsText levels) := by
  induction levels with
  | zero => exact exhausted_watched
  | succ levels ih =>
    exact evaluatorIn_watched
      (c := (contextOver source wantsText levels _)) ih

end Stepper.Execution

/-! ### The variables of a round -/

namespace Stepper.Execution

open Machine

/-- The context, where what is nested is evaluated with an eye on a binding. -/
noncomputable def watchingContext (s : ScopeRef) (x : String) (b : Option Binding) (c : Context)
    (wantsText : Bool) (levels : Nat) : Context :=
  { c with inner := watchingEvaluator s x b c.source wantsText levels }

end Stepper.Execution

namespace Stepper.Machine.ForLoop

open Syntax Machine.Action Execution

variable {σ : Type} {L : ForLoop} {c : Context} {h : Host σ} {m : Moment σ} {head : ScopeRef}

/-- The rounds of a loop declare names only in scopes that they make, or that they are given. -/
theorem composed_loop_turn {K : Means} {t : Targets} (hK : K.Unbound) {round : ScopeRef}
    (hround : K.opens round) (fuel : Nat) : Composed K t (loop L.turn fuel round) := by
  refine composed_loop_of (p := K.opens) (fun round hround g hl hr => ?_) fuel hround
  unfold turn
  simp only [bind_assoc, ite_bind]
  refine .bind (composed_test hK round) fun met => composed_ite (hr ()) ?_
  refine .bind (composed_execBody hround (hK.confined _ _ _)) fun goesOn => composed_ite (hr ()) ?_
  exact composed_roundScope_bind hround fun next hnext =>
    .bind (composed_step hK next) fun _ => hl next hnext

/-- What is true of the variables of a round when its body has ended in this state. -/
structure Settled (L : ForLoop) (c : Context) (h : Host σ) (m : Moment σ) : Prop where
  binds : ∀ x ∈ L.names, m.world.scopes.Binds m.scope x
  /-- The next round has a new scope with copies of the variables, and the step is taken there. -/
  next : ∀ b, L.Advances c h m b → ∃ v, m.world.Renews m.scope L.around L.names b.scope v ∧
    (L.step b.scope c v).drive h m.host = (.done () b.world, b.host)
  /-- The rounds to come work outside of the scope of this one. -/
  outside : ∀ round, round ≠ m.scope → ∀ fuel,
    Composed (.outside m.scope m.world.scopes) {} (loop L.turn fuel round)
  /-- Whatever works outside, from any later state on, goes the way that it goes when a variable is
  watched: through states that keep it, unless code inside the scope of the round writes it. -/
  later : ∀ x ∈ L.names, ∀ (d : Context) (wantsText : Bool) (levels : Nat),
    d.inner = evaluator d.source wantsText levels →
    ∀ v, m.world.Keeps m.scope x (m.world.scopes.binding? m.scope x) v →
    ∀ (α : Type) (y : Action α), y.Composed (.outside m.scope v.scopes) {} →
      (y d v).Watched m.scope x (m.world.scopes.binding? m.scope x) m.world
        (y (watchingContext m.scope x (m.world.scopes.binding? m.scope x) d wantsText levels) v)
  /-- While it is kept, who finds the variable in the scope of the round reads what it was. -/
  reads : ∀ x ∈ L.names, ∀ v,
    m.world.Keeps m.scope x (m.world.scopes.binding? m.scope x) v →
    ∀ f, v.scopes.holder? x f = some m.scope → v.scopes.read f x = m.world.scopes.read m.scope x

theorem read_of_keeps {s : ScopeRef} {x : String} {w v : World} (hs : w.scopes.Binds s x)
    (hv : w.Keeps s x (w.scopes.binding? s x) v) {f : ScopeRef} (hf : v.scopes.holder? x f = some s) :
    v.scopes.read f x = w.scopes.read s x := by
  have hsame : (v.scopes.get s).bindings.get? x = (w.scopes.get s).bindings.get? x := hv.same
  simp only [Scopes.read, Scopes.resolve, hf, Scopes.holder?_of_binds hs, hsame]

theorem Own.not_inside_head {a : Moment σ} (ha : L.Own head a) :
    ¬ a.world.scopes.Inside head a.scope := by
  intro hinside
  have hparent := Scopes.inside_parent hinside (fun h => Nat.ne_of_gt ha.later (congrArg _ h))
    ha.parent
  exact absurd hparent.index_le (Nat.not_le.mpr ha.around)

theorem Own.head_not_inside {a : Moment σ} (ha : L.Own head a) :
    ¬ a.world.scopes.Inside a.scope head :=
  fun hinside => absurd hinside.index_le (Nat.not_le.mpr ha.later)

theorem Own.settled (hm : L.Own head m) (hnames : L.names ≠ []) : L.Settled c h m where
  binds := hm.binds
  next _ hb := hb.renews hm hnames
  outside _ hround fuel := composed_loop_turn (Means.unbound_outside _) hround fuel
  later _ _ d wantsText levels hd _ hv _ _ hy :=
    (watched_of_composed hy (hd ▸ evaluator_watched d.source wantsText levels) (.refl _) hv.self).mono
      fun _ => hv.trans
  reads x hx _ hv _ hf := read_of_keeps (hm.binds x hx) hv hf

end Stepper.Machine.ForLoop

namespace Stepper.Execution

open Syntax Machine Machine.Action Machine.ForLoop Builtin

/-- Each round of a `for` statement has variables of its own. With a head by `let` or `const` in
place, the first round begins in a new scope with copies of the variables of the head, and the
statement comes to what its loop comes to from there. Whenever a round has begun, its scope and that
of the head are not inside each other; it goes on to the next by way of the end of its body; and
when its body has ended, what is said of settled variables is true of them. -/
theorem rounds_have_variables_of_their_own {σ : Type} {c : Context} {wantsText : Bool} {levels : Nat}
    (hc : c.inner = evaluator c.source wantsText levels) (h : Host σ) {L : ForLoop} {n i : Node}
    {labels : List String} {w : World} {s : σ} {head : ScopeRef} {first : Moment σ}
    (hinit : n.child? .initializer = some i) (hi : i.IsLexical c.source)
    (hnames : i.declaredNames c.source ≠ []) (haround : L.around.index < w.scopes.all.size)
    (henter : L.Enters n labels c h w s head first) :
    L.names = i.declaredNames c.source ∧
    (∃ u v : World, childScope L.around c w = .done head u ∧
      u.scopes.Declares (declarationKind (i.declarationWord c.source)) L.names head v.scopes ∧
      v.Renews head L.around L.names first.scope first.world) ∧
    ∀ k a, L.Rounds c h first k a →
      (k ≤ maxRounds → (execFor n L.around labels c w).drive h s =
        (loop L.turn (maxRounds - k) a.scope c a.world).drive h a.host) ∧
      ¬ a.world.scopes.Inside head a.scope ∧ ¬ a.world.scopes.Inside a.scope head ∧
      (∀ b, L.Turns c h a b ↔ ∃ m, L.BodyEnds c h a true m ∧ L.Advances c h m b) ∧
      ∀ goesOn m, L.BodyEnds c h a goesOn m → L.Settled c h m := by
  have hdeclares : c.inner.Declares c.source := hc ▸ evaluator_declares ..
  have hevolves : c.inner.Obeys fun w x => x.Evolves w := hc ▸ evaluator_evolves ..
  obtain ⟨hL, u, v, hhead, hdeclared, hfirst⟩ := henter.declares hinit hi hdeclares
  have hne : L.names ≠ [] := hL ▸ hnames
  have hrenews : v.Renews head L.around L.names first.scope first.world := by
    obtain ⟨hindex, hlt⟩ := childScope_index hhead
    obtain ⟨next, v', hdone, hrenews⟩ := roundScope_renews head hne c (w := v)
      (Nat.lt_trans (hindex ▸ haround) (Nat.lt_of_lt_of_le hlt hdeclared.size))
    rw [hfirst] at hdone
    cases hdone
    exact hrenews
  refine ⟨hL, ⟨u, v, hhead, hdeclared, hrenews⟩, fun k a ha => ?_⟩
  have hown := ha.own hevolves hne (henter.own hinit hi hdeclares hne haround)
  refine ⟨henter.drive_of_rounds ha, hown.not_inside_head, hown.head_not_inside,
    fun _ => turns_iff, fun goesOn m hm => ?_⟩
  exact (hown.evolves hm.scope (hm.evolves hevolves)).settled hne

def countingSource : String := "for (let a = 0; ; a++) f = () => a;"

/-- The declaration in the head of that loop. -/
def countingHead : Node :=
  { kind := .lexicalDeclaration, field := some .initializer
    children :=
      [{ kind := .token "let", named := false, field := some .kind, start := 5, stop := 8 },
        { kind := .variableDeclarator
          children := [{ nameNode 9 10 with field := some .name },
            { kind := .number, start := 13, stop := 14, field := some .value }] }] }

/-- The body, which makes a function that reads the variable. -/
def countingBody : Node :=
  { kind := .expressionStatement, field := some .body
    children :=
      [{ kind := .assignmentExpression
         children :=
          [{ nameNode 23 24 with field := some .left },
            { kind := .arrowFunction, start := 27, stop := 34, field := some .right
              children := [{ kind := .formalParameters, field := some .parameters },
                { nameNode 33 34 with field := some .body }] }] }] }

/-- The step between rounds, which writes the variable. -/
def countingStep : Node :=
  { kind := .updateExpression, field := some .increment
    children := [{ nameNode 18 19 with field := some .argument },
      { kind := .token "++", named := false, start := 19, stop := 21, field := some .operator }] }

def countingFor : Node :=
  { kind := .forStatement, children := [countingHead, countingStep, countingBody] }

def countingLoop : ForLoop :=
  { condition := none, body := countingBody, increment := some countingStep
    around := ⟨0⟩, labels := [], names := ["a"] }

def countingContext : Context :=
  contextOver countingSource false 9 (evaluator countingSource false 9)

/-- The scope around the loop. -/
def aroundCounting : Scope := { bindings := [("f", ⟨some .undefined, .let_⟩)] }

/-- A scope with the variable as the head declares it. -/
def countingScope : Scope :=
  { parent := some ⟨0⟩, bindings := [("a", ⟨some (.number zero), .let_⟩)] }

def firstCount : Moment Unit :=
  { scope := ⟨2⟩
    world := { scopes := ⟨#[aroundCounting, countingScope, countingScope]⟩ }
    host := () }

/-- The end of the body of the first round. -/
def firstEnd : Moment Unit :=
  { scope := ⟨2⟩
    world := ((exec countingBody ⟨2⟩ countingContext firstCount.world).drive silentHost ()).1.world
    host := () }

/-- What the step works on: a new scope, and the scopes with it. -/
def secondScope : ScopeRef × Scopes :=
  firstEnd.world.scopes.alloc
    { parent := some ⟨0⟩, bindings := roundBindings (firstEnd.world.scopes.get ⟨2⟩).bindings ["a"] }

/-- The beginning of the second round. -/
def secondCount : Moment Unit :=
  { scope := secondScope.1
    world := ((countingLoop.step secondScope.1 countingContext
      { firstEnd.world with scopes := secondScope.2 }).drive silentHost ()).1.world
    host := () }

def finishes : Outcome Unit → Bool
  | .done .. => true
  | .broke .. => false

theorem eq_done_of_finishes {o : Outcome Unit} (h : finishes o = true) : o = .done () o.world := by
  cases o with
  | done a w => rfl
  | broke i w => cases h

theorem countingHead_lexical : countingHead.IsLexical countingSource where
  kind := rfl
  word := by decide
  target d hd hkind t ht := by
    simp only [countingHead, List.mem_cons, List.not_mem_nil, or_false] at hd
    rcases hd with rfl | rfl
    · cases hkind
    · cases ht
      rfl

theorem countingFor_enters : countingLoop.Enters countingFor [] countingContext silentHost
    { scopes := ⟨#[aroundCounting]⟩ } () ⟨1⟩ firstCount where
  condition := rfl
  body := rfl
  increment := rfl
  labels := rfl
  run := ⟨_, _, rfl, rfl, rfl⟩

theorem firstCount_ends :
    countingLoop.BodyEnds countingContext silentHost firstCount true firstEnd := by
  have hfinishes : finishes ((exec countingBody ⟨2⟩ countingContext firstCount.world).drive
      silentHost ()).1 = true := by decide +kernel
  exact ⟨rfl, _, _, _, rfl, Prod.ext (eq_done_of_finishes hfinishes) rfl, .byItself _⟩

theorem firstEnd_advances :
    countingLoop.Advances countingContext silentHost firstEnd secondCount := by
  have hfinishes : finishes ((countingLoop.step secondScope.1 countingContext
      { firstEnd.world with scopes := secondScope.2 }).drive silentHost ()).1 = true := by
    decide +kernel
  exact ⟨_, rfl, Prod.ext (eq_done_of_finishes hfinishes) rfl⟩

/-- The number that a name stands for. -/
def numberAt? (w : World) (e : ScopeRef) (x : String) : Option Float :=
  match w.scopes.read e x with
  | .ok (.number y) => some y
  | _ => none

/-- The scope in which the function that a name stands for was made. -/
def madeIn? (w : World) (e : ScopeRef) (x : String) : Option ScopeRef :=
  match w.scopes.read e x with
  | .ok (.object r) => (closureOf? (w.heap.get r)).map (·.scope)
  | _ => none

/-- The function that the first round made still finds zero, where the step has counted to one. -/
theorem countingFor_settles :
    countingLoop.Enters countingFor [] countingContext silentHost
      { scopes := ⟨#[aroundCounting]⟩ } () ⟨1⟩ firstCount ∧
    countingLoop.names = countingHead.declaredNames countingSource ∧
    countingLoop.BodyEnds countingContext silentHost firstCount true firstEnd ∧
    countingLoop.Settled countingContext silentHost firstEnd ∧
    countingLoop.Rounds countingContext silentHost firstCount 1 secondCount ∧
    ¬ secondCount.world.scopes.Inside ⟨1⟩ secondCount.scope ∧
    madeIn? secondCount.world ⟨0⟩ "f" = some ⟨2⟩ ∧ numberAt? secondCount.world ⟨2⟩ "a" = some zero ∧
    numberAt? secondCount.world secondCount.scope "a" = some one := by
  have hall := rounds_have_variables_of_their_own (c := countingContext) rfl silentHost rfl
    countingHead_lexical (by decide) (s := ()) Nat.zero_lt_one countingFor_enters
  have hround : countingLoop.Rounds countingContext silentHost firstCount 1 secondCount :=
    .next .first (turns_iff.mpr ⟨firstEnd, firstCount_ends, firstEnd_advances⟩)
  have hsettled := (hall.2.2 0 firstCount .first).2.2.2.2 true _ firstCount_ends
  have hmade : madeIn? secondCount.world ⟨0⟩ "f" = some ⟨2⟩ ∧
      numberAt? secondCount.world ⟨2⟩ "a" = some zero ∧
      numberAt? secondCount.world secondCount.scope "a" = some one := by decide +kernel
  exact ⟨countingFor_enters, hall.1, firstCount_ends, hsettled, hround, (hall.2.2 1 _ hround).2.1,
    hmade⟩

end Stepper.Execution
