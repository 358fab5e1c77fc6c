import Stepper.Execution.Run
import Stepper.Proofs.Composition.Program

/-!
Laws of courses. A law speaks of a course and the state that it begins in. If a single operation and
a word to the host obey it, and sequencing, looking at what a part came to and going one function
deeper keep it, then every composed action obeys it among evaluators that do, and so does every
program.
-/
namespace Stepper.Machine

open Syntax

/-- What makes a property of courses and their first states a law. -/
structure Course.Law (P : {α : Type} → World → Course α → Prop) : Prop where
  atOnce : ∀ {α : Type} {w : World} (x : Outcome α), w.Steps x.world → P w x.course
  tell : ∀ (f : Heap → Call) (c : Context) (w : World), P w (Action.tell f c w)
  bind : ∀ {α β : Type} {w : World} {x : Course α} {f : α → World → Course β}, P w x →
    (∀ a v, P v (f a v)) → P w (x.bind f)
  /-- To look at what a course came to does no harm if a stop is let pass. -/
  handle : ∀ {α β : Type} {w : World} {x : Course α} {f : Except Interrupt α → World → Course β},
    P w x → (∀ r, r ≠ .error .stopped → ∀ v, P v (f r v)) →
    (∀ v, f (.error .stopped) v = .broke .stopped v) → P w (x.attempt.bind f)
  deeper : ∀ {α : Type} {x : Action α} {c : Context}, (∀ w, P w (x c w)) →
    ∀ w, P w (Action.deeper x c w)

variable {P : {α : Type} → World → Course α → Prop} {α β : Type}

structure Evaluator.Obeys (P : {α : Type} → World → Course α → Prop) (m : Evaluator) : Prop where
  eval : ∀ n e isHead w, P w (m.eval n e isHead w)
  exec : ∀ n e labels w, P w (m.exec n e labels w)
  bind : ∀ n v e mode w, P w (m.bind n v e mode w)
  call : ∀ f this args w, P w (m.call f this args w)
  construct : ∀ f args newTarget w, P w (m.construct f args newTarget w)

/-- An action that obeys a law among evaluators that do. -/
def Action.Obeys (P : {α : Type} → World → Course α → Prop) (x : Action α) : Prop :=
  ∀ c : Context, c.inner.Obeys P → ∀ w, P w (x c w)

theorem Action.Obeys.bind (hP : Course.Law P) {x : Action α} {f : α → Action β} (hx : x.Obeys P)
    (hf : ∀ a, (f a).Obeys P) : (x >>= f).Obeys P :=
  fun c hc w => hP.bind (hx c hc w) fun a => hf a c hc

theorem Action.Composed.obeys (hP : Course.Law P) {t : Targets} {x : Action α}
    (h : x.Composed .all t) : x.Obeys P := by
  intro c hc
  induction h with
  | atOnce f hf hw => exact fun w => hP.atOnce (f w) (hw w).toSteps
  | declare e name kind value he =>
    exact fun w => hP.atOnce (.done () ⟨w.heap, w.scopes.declare e name kind value, w.depth⟩)
      ⟨⟨.refl _, w.scopes.evolves_declare ..⟩, rfl⟩
  | assign e name v he =>
    intro w
    rw [assign_eq]
    exact hP.atOnce (assigned e name v w) (steps_assigned e name v w)
  | @within _ _ s f hf ih =>
    exact fun w => hP.bind (hP.atOnce (.done (w.scopes.alloc s).1 ⟨w.heap, (w.scopes.alloc s).2,
      w.depth⟩) ⟨⟨.refl _, w.scopes.evolves_alloc s⟩, rfl⟩) fun e => ih e trivial
  | @decides _ e x hx ihx =>
    intro w
    rw [decideThis_eq]
    split
    · exact hP.atOnce (.broke decidedTwice w) (.refl w)
    · exact hP.bind (ihx w) fun v u =>
        hP.atOnce (.done v (u.withThis e v)) (u.steps_withThis e v)
  | source hf ih => exact fun w => ih c.source trivial w
  | realm => exact fun w => hP.atOnce (.done c.realm w) (.refl w)
  | room => exact fun w => hP.atOnce (.done c.room w) (.refl w)
  | tell f hf => exact hP.tell f c
  | look r hf ih => exact fun w => ih (w.heap.get r) (Means.carries_all _) w
  | bind hx hf ihx ihf => exact fun w => hP.bind (ihx w) ihf
  | @handle _ _ _ _ x f hx hf hstop ihx ihf =>
    exact fun w => hP.handle (f := fun r w => f r c w) (ihx w)
      (fun r hr => ihf r hr fun _ _ => .inl trivial) fun w => congrFun (congrFun hstop c) w
  | deeper hK hx ihx => exact hP.deeper ihx
  | eval n e isHead hn => exact hc.eval n e isHead
  | exec n e labels hn htu he => exact hc.exec n e labels
  | bindTarget n v e mode hn he => exact hc.bind n v e mode
  | call f this args => exact hc.call f this args
  | construct f args newTarget => exact hc.construct f args newTarget

end Stepper.Machine

namespace Stepper.Execution

open Syntax Machine Builtin

variable {P : {α : Type} → World → Course α → Prop} (hP : Course.Law P)

include hP

theorem callConsole_obeys (k : ConsoleKind) (args : List Value) : (callConsole k args).Obeys P := by
  have htold (f : Heap → Call) : (do Action.tell f; return Value.undefined).Obeys P :=
    Action.Obeys.bind hP (fun c _ => hP.tell f c) fun _ =>
      (Action.composed_pure (t := {}) _).obeys hP
  intro c hc w
  change P w ((if c.wantsText then _ else _ : Action Value) c w)
  cases c.wantsText with
  | true =>
    exact Action.Obeys.bind hP
      ((Action.composed_collect (t := {}) (fun _ => composed_consoleText _) args).obeys hP)
      (fun pieces => htold _) c hc w
  | false =>
    exact Action.Obeys.bind hP ((Action.Composed.room (t := {})).obeys hP) (fun room => htold _)
      c hc w

theorem callValue_obeys (f this : Value) (args : List Value) : (callValue f this args).Obeys P := by
  intro c hc w
  obtain ⟨x, hx | ⟨k, rfl⟩, hcall⟩ :=
    callValue_cases (u := {}) args this Means.hereditary_all trivial f (Means.sound_all w.heap)
  · rw [hcall]
    exact hx.obeys hP c hc w
  · rw [hcall]
    exact callConsole_obeys hP k args c hc w

theorem evaluatorIn_obeys {c : Context} (hc : c.inner.Obeys P) : (evaluatorIn c).Obeys P where
  eval n e isHead :=
    (Action.composed_evaluate (t := {}) e Means.hereditary_all (Means.expression_all n) trivial
      isHead).obeys hP c hc
  exec _ _ _ :=
    (Action.composed_execute (t := {}) Means.hereditary_all trivial trivial).obeys hP c hc
  bind n v e mode :=
    (Action.composed_bindPattern (t := {}) e v mode Means.hereditary_all
      (Means.expression_all n) (fun _ _ => trivial) trivial).obeys hP c hc
  call f this args := callValue_obeys hP f this args c hc
  construct f args newTarget :=
    (composed_constructValue (u := {}) args newTarget Means.hereditary_all trivial f).obeys hP c hc

theorem exhausted_obeys : exhausted.Obeys P := by
  have hdeep {α : Type} (w : World) : P w (.broke (.fault .nestingTooDeep) w : Course α) :=
    hP.atOnce (.broke _ w) (.refl w)
  exact ⟨fun _ _ _ => hdeep, fun _ _ _ => hdeep, fun _ _ _ _ => hdeep, fun _ _ _ => hdeep,
    fun _ _ _ => hdeep⟩

theorem evaluator_obeys (source : String) (wantsText : Bool) (levels : Nat) :
    (evaluator source wantsText levels).Obeys P := by
  induction levels with
  | zero => exact exhausted_obeys hP
  | succ levels ih => exact evaluatorIn_obeys hP ih

/-- Every program obeys the law. -/
theorem course_obeys (p : Program) (wantsText : Bool) : P initialWorld (course p wantsText) :=
  (composed_program (t := {}) Means.hereditary_all fun _ _ => trivial).obeys hP _
    (evaluator_obeys hP ..) initialWorld

/-- So does an exception that describes itself. -/
theorem details_obeys {p : Program} {wantsText : Bool} {i : Interrupt} {w : World}
    {x : Course (Text × Text)} (h : details p wantsText i w = some x) : P w x := by
  cases i <;> simp only [details, Option.some.injEq, reduceCtorEq] at h <;> subst h
  case thrown v =>
    exact (Action.composed_thrownDetails (t := {}) v).obeys hP _ (evaluator_obeys hP ..) w
  case raised kind message => exact hP.atOnce (.done _ w) (.refl w)

end Stepper.Execution
