import Stepper.Proofs.Persistence

/-!
Where names are declared. A statement declares names in the scope that it is run in and a
declaration in the scope that it binds names in; everything else declares them only in scopes that
it has made itself. So whatever an expression comes to evaluate and call, the scopes there were
before keep their names as assignments keep them: nothing that can be read stops being so.
-/
namespace Stepper.Machine

open Syntax

variable {α β σ : Type} {S : ScopeRef → Prop} {t : Targets}

/-- All of these scopes are there. -/
def Scopes.Has (s : Scopes) (S : ScopeRef → Prop) : Prop := ∀ f, S f → f.index < s.all.size

/-- Scopes that were there are there later. -/
theorem Scopes.Evolves.has {s s' : Scopes} (h : s.Evolves s') (hS : s.Has S) : s'.Has S :=
  fun f hf => Nat.lt_of_lt_of_le (hS f hf) h.size

/-- Without a bound, but for declarations in these scopes. -/
def Means.sparing (S : ScopeRef → Prop) : Means := { all with opens := fun e => ¬ S e }

theorem Means.unbound_sparing : (sparing S).Unbound :=
  ⟨fun _ => trivial, fun _ _ _ => trivial, fun _ => trivial, trivial⟩

namespace Course

/-- The states that the course comes through have the bindings of these scopes as assignments leave
them. -/
def Spares (S : ScopeRef → Prop) (w : World) : Course α → Prop
  | .done _ v => w.scopes.Spares (fun f _ => S f) v.scopes
  | .broke _ v => w.scopes.Spares (fun f _ => S f) v.scopes
  | .tell _ v next => w.scopes.Spares (fun f _ => S f) v.scopes ∧ ∀ r, (next r).Spares S v

/-- What is spared from now on is spared since then. -/
theorem Spares.since {u w : World} {x : Course α} (hx : x.Spares S w)
    (hw : u.scopes.Spares (fun f _ => S f) w.scopes) : x.Spares S u := by
  cases x with
  | done a v => exact hw.trans hx
  | broke i v => exact hw.trans hx
  | tell c v next => exact ⟨hw.trans hx.1, hx.2⟩

theorem spares_course {w : World} {x : Outcome α}
    (h : w.scopes.Spares (fun f _ => S f) x.world.scopes) : x.course.Spares S w := by
  cases x <;> exact h

/-- What comes next finds all scopes there that were there before. -/
theorem Spares.bind {w : World} {x : Course α} {f : α → World → Course β} (hx : x.Spares S w)
    (hS : w.scopes.Has S) (hf : ∀ a v, v.scopes.Has S → (f a v).Spares S v) :
    (x.bind f).Spares S w := by
  induction x generalizing w with
  | done a v => exact (hf a v (hx.has hS)).since hx
  | broke i v => exact hx
  | tell c v next ih => exact ⟨hx.1, fun r => ih r (hx.2 r) (hx.1.has hS)⟩

/-- What is caught as data spares the same. -/
theorem Spares.attempt {w : World} {x : Course α} (hx : x.Spares S w) : x.attempt.Spares S w := by
  induction x generalizing w with
  | done a v => exact hx
  | broke i v => exact hx
  | tell c v next ih => exact ⟨hx.1, fun r => ih r (hx.2 r)⟩

theorem Spares.mapWorld {w : World} {x : Course α} (hx : x.Spares S w) {f : World → World}
    (hf : ∀ v : World, (f v).scopes = v.scopes) : (x.mapWorld f).Spares S w := by
  induction x generalizing w with
  | done a v =>
    change w.scopes.Spares _ (f v).scopes
    exact hf v ▸ hx
  | broke i v =>
    change w.scopes.Spares _ (f v).scopes
    exact hf v ▸ hx
  | tell c v next ih => exact ⟨hx.1, fun r => ih r (hx.2 r)⟩

theorem Spares.ends {w : World} {x : Course α} (hx : x.Spares S w) :
    x.Ends fun _ v => w.scopes.Spares (fun f _ => S f) v.scopes := by
  induction x generalizing w with
  | done a v => exact hx
  | broke i v => trivial
  | tell c v next ih => exact fun r => (ih r (hx.2 r)).imp fun _ _ => hx.1.trans

end Course

/-- Only statements and declarations that work in one of these scopes declare anything there. -/
structure Evaluator.Spares (S : ScopeRef → Prop) (m : Evaluator) : Prop where
  eval : ∀ n e isHead w, w.scopes.Has S → (m.eval n e isHead w).Spares S w
  exec : ∀ n e labels w, ¬ S e → w.scopes.Has S → (m.exec n e labels w).Spares S w
  bind : ∀ n v e mode w, (∀ kind, mode = .declare kind → ¬ S e) → w.scopes.Has S →
    (m.bind n v e mode w).Spares S w
  call : ∀ f this args w, w.scopes.Has S → (m.call f this args w).Spares S w
  construct : ∀ f args newTarget w, w.scopes.Has S → (m.construct f args newTarget w).Spares S w

namespace Action

/-- An action that declares nothing in these scopes, among evaluators that do not either. -/
def Spares (S : ScopeRef → Prop) (x : Action α) : Prop :=
  ∀ c : Context, c.inner.Spares S → ∀ w : World, w.scopes.Has S → (x c w).Spares S w

theorem Spares.bind {x : Action α} {f : α → Action β} (hx : x.Spares S)
    (hf : ∀ a, (f a).Spares S) : (x >>= f).Spares S :=
  fun c hc w hS => (hx c hc w hS).bind hS fun a => hf a c hc

theorem spares_tell (f : Heap → Call) : (tell f).Spares S := by
  refine fun c _ w _ => ⟨.refl _ _, fun r => ?_⟩
  cases r <;> exact .refl _ _

/-- What is composed without a declaration in those scopes spares them. -/
theorem Composed.spares {x : Action α} (h : x.Composed (.sparing S) t) : x.Spares S := by
  intro c hc
  induction h with
  | atOnce f hf hw =>
    exact fun w _ => Course.spares_course ((hw w).spares _)
  | declare e name kind value he =>
    refine fun w _ => w.scopes.spares_declare (fun f x hf => ?_) kind value
    rintro ⟨rfl, -⟩
    exact he hf
  | assign e name v he =>
    intro w _
    rw [assign_eq]
    exact Course.spares_course (spares_assigned e name v w _)
  | @within _ _ s f hf ih =>
    -- the new scope is none of those that are spared, for all of them were there before
    intro w hS
    have hnew : ¬ S (w.scopes.alloc s).1 := fun h => Nat.lt_irrefl _ (hS _ h)
    have halloc := w.scopes.spares_alloc (fun f _ => S f) s
    exact (ih _ hnew ⟨w.heap, (w.scopes.alloc s).2, w.depth⟩ (halloc.has hS)).since halloc
  | @decides _ e x hx ihx =>
    intro w hS
    rw [decideThis_eq]
    split
    · exact .refl _ w.scopes
    · refine (ihx w hS).bind hS fun v u _ => ?_
      exact Scopes.spares_of_bindings (u.scopes.evolves_this e v)
        (fun f x _ => u.scopes.binding?_this e v f x) _
  | source hf ih => exact fun w hS => ih c.source trivial w hS
  | realm => exact fun w _ => .refl _ w.scopes
  | room => exact fun w _ => .refl _ w.scopes
  | tell f hf => exact spares_tell f c hc
  | look r hf ih =>
    exact fun w hS => ih (w.heap.get r) (Means.unbound_sparing.carries _) w hS
  | bind hx hf ihx ihf => exact fun w hS => (ihx w hS).bind hS ihf
  | @handle _ _ _ _ x f hx hf hstop ihx ihf =>
    refine fun w hS => (ihx w hS).attempt.bind (f := fun r w => f r c w) hS fun r v hS => ?_
    by_cases hr : r = .error .stopped
    · rw [hr, hstop]
      exact .refl _ v.scopes
    · exact ihf r hr (fun _ _ => .inl trivial) v hS
  | deeper hK hx ihx =>
    refine fun w hS => Course.Spares.mapWorld ?_ fun _ => rfl
    exact (ihx { w with depth := w.depth + 1 } hS).since (.refl _ w.scopes)
  | eval n e isHead hn => exact hc.eval n e isHead
  | exec n e labels hn htu he => exact fun w => hc.exec n e labels w he
  | bindTarget n v e mode hn he => exact fun w => hc.bind n v e mode w he
  | call f this args => exact hc.call f this args
  | construct f args newTarget => exact hc.construct f args newTarget

end Action
end Stepper.Machine

namespace Stepper.Execution

open Syntax Machine Builtin

variable {S : ScopeRef → Prop}

theorem callConsole_spares (k : ConsoleKind) (args : List Value) :
    (callConsole k args).Spares S := by
  have htold (f : Heap → Call) : (do Action.tell f; return Value.undefined).Spares S :=
    (Action.spares_tell f).bind fun _ => (Action.composed_pure (t := {}) _).spares
  intro c hc w
  change _ → Course.Spares S w ((if c.wantsText then _ else _ : Action Value) c w)
  cases c.wantsText with
  | true =>
    exact Action.Spares.bind
      (Action.composed_collect (t := {}) (fun _ => composed_consoleText _) args).spares
      (fun pieces => htold _) c hc w
  | false =>
    exact Action.Spares.bind (Action.Composed.room (t := {})).spares (fun room => htold _) c hc w

/-- A call spares the scopes there were, of the console or of anything else. -/
theorem callValue_spares (f this : Value) (args : List Value) : (callValue f this args).Spares S := by
  intro c hc w hS
  obtain ⟨x, hx | ⟨k, rfl⟩, hcall⟩ := callValue_cases (K := .sparing S) (u := {}) args this
    Means.unbound_sparing.hereditary trivial f (Means.unbound_sparing.sound w.heap)
  · rw [hcall]
    exact hx.spares c hc w hS
  · rw [hcall]
    exact callConsole_spares k args c hc w hS

/-- A level of evaluation spares what the one below it spares. -/
theorem evaluatorIn_spares {c : Context} (hc : c.inner.Spares S) : (evaluatorIn c).Spares S where
  eval n e isHead :=
    (Action.composed_evaluate (t := {}) e Means.unbound_sparing.hereditary
      (Means.unbound_sparing.expression n) trivial isHead).spares c hc
  exec _ _ _ w he :=
    (Action.composed_execute (t := {}) Means.unbound_sparing.hereditary he trivial).spares c hc w
  bind n v e mode w he :=
    (Action.composed_bindPattern (t := {}) e v mode Means.unbound_sparing.hereditary
      (Means.unbound_sparing.expression n) he trivial).spares c hc w
  call f this args := callValue_spares f this args c hc
  construct f args newTarget :=
    (composed_constructValue (u := {}) args newTarget Means.unbound_sparing.hereditary trivial
      f).spares c hc

theorem exhausted_spares : exhausted.Spares S :=
  ⟨fun _ _ _ w _ => .refl _ w.scopes, fun _ _ _ w _ _ => .refl _ w.scopes,
    fun _ _ _ _ w _ _ => .refl _ w.scopes, fun _ _ _ w _ => .refl _ w.scopes,
    fun _ _ _ w _ => .refl _ w.scopes⟩

/-- Evaluation of whatever depth declares nothing in scopes that are not its own. -/
theorem evaluator_spares (source : String) (wantsText : Bool) (levels : Nat) :
    (evaluator source wantsText levels).Spares S := by
  induction levels with
  | zero => exact exhausted_spares
  | succ levels ih => exact evaluatorIn_spares ih

end Stepper.Execution
