import Stepper.Proofs.Heeding
import Stepper.Proofs.Written

/-!
A program under a host that wants text and under one that does not. They hear the same calls, but
for those of the console: there the one host hears text where the other hears the values. To write
the text may run more of the program, and then all that comes after may differ; but as long as the
console shows plain data the two courses go the same way. This holds of every composed action and of
console calls, so of the evaluators for any room, and so of every program.
-/
namespace Stepper.Machine

open Syntax Builtin

variable {α β : Type}

namespace Call

/-- Shows plain data, if it is a console call. -/
def Plain : Call → Prop
  | .console _ (.values h room vs) => ∀ v ∈ vs, printable h room v = true
  | _ => True

instance (c : Call) : Decidable c.Plain :=
  match c with
  | .console _ (.values h room vs) =>
    inferInstanceAs (Decidable (∀ v ∈ vs, printable h room v = true))
  | .console _ (.text _) | .step _ _ | .track .. | .enter .. | .exit .. | .memory =>
    .isTrue trivial

/-- The call as a host hears it that wants text. -/
def inText : Call → Call
  | .console kind (.values h room vs) =>
    .console kind (.text (Text.join " " (vs.map (printed h room))))
  | c => c

/-- The text of a hook's call is that call. -/
theorem IsHook.inText {c : Call} (h : c.IsHook) : c.inText = c := by
  cases c with
  | console kind m => exact h.elim
  | _ => rfl

end Call

namespace Course

/-- The second course is the first as it goes under a host that wants text. Nothing is said of what
comes after a call that shows anything but plain data. -/
def Renders : Course α → Course α → Prop
  | .done a w, y => y = .done a w
  | .broke i w, y => y = .broke i w
  | .tell c w next, y => c.Plain →
    ∃ next', y = .tell c.inText w next' ∧ ∀ r, (next r).Renders (next' r)

/-- What follows renders if each part does. -/
theorem Renders.bind {x y : Course α} {f g : α → World → Course β} (h : x.Renders y)
    (hf : ∀ a w, (f a w).Renders (g a w)) : (x.bind f).Renders (y.bind g) := by
  induction x generalizing y with
  | done a w =>
    obtain rfl : y = .done a w := h
    exact hf a w
  | broke i w =>
    obtain rfl : y = .broke i w := h
    exact rfl
  | tell c w next ih =>
    intro hc
    obtain ⟨next', rfl, hnext⟩ := h hc
    exact ⟨_, rfl, fun r => ih r (hnext r)⟩

/-- What is caught as data renders alike. -/
theorem Renders.attempt {x y : Course α} (h : x.Renders y) : x.attempt.Renders y.attempt := by
  induction x generalizing y with
  | done a w =>
    obtain rfl : y = .done a w := h
    exact rfl
  | broke i w =>
    obtain rfl : y = .broke i w := h
    exact rfl
  | tell c w next ih =>
    intro hc
    obtain ⟨next', rfl, hnext⟩ := h hc
    exact ⟨_, rfl, fun r => ih r (hnext r)⟩

theorem Renders.mapWorld {x y : Course α} (h : x.Renders y) (f : World → World) :
    (x.mapWorld f).Renders (y.mapWorld f) := by
  induction x generalizing y with
  | done a w =>
    obtain rfl : y = .done a w := h
    exact rfl
  | broke i w =>
    obtain rfl : y = .broke i w := h
    exact rfl
  | tell c w next ih =>
    intro hc
    obtain ⟨next', rfl, hnext⟩ := h hc
    exact ⟨_, rfl, fun r => ih r (hnext r)⟩

theorem renders_course (x : Outcome α) : x.course.Renders x.course := by
  cases x with
  | done a w => exact rfl
  | broke i w => exact rfl

end Course

structure Evaluator.Renders (m m' : Evaluator) : Prop where
  eval : ∀ n e isHead w, (m.eval n e isHead w).Renders (m'.eval n e isHead w)
  exec : ∀ n e labels w, (m.exec n e labels w).Renders (m'.exec n e labels w)
  bind : ∀ n v e mode w, (m.bind n v e mode w).Renders (m'.bind n v e mode w)
  call : ∀ f this args w, (m.call f this args w).Renders (m'.call f this args w)
  construct : ∀ f args newTarget w,
    (m.construct f args newTarget w).Renders (m'.construct f args newTarget w)

/-- Contexts that differ in what the host wants. -/
structure Context.Renders (c d : Context) : Prop where
  source : c.source = d.source
  realm : c.realm = d.realm
  room : c.room = d.room
  bare : c.wantsText = false
  text : d.wantsText = true
  inner : c.inner.Renders d.inner

def Action.Renders (x : Action α) : Prop := ∀ c d : Context, c.Renders d →
  ∀ w, (x c w).Renders (x d w)

/-- What is composed of single operations is rendered by an evaluator that renders. -/
theorem Action.Composed.renders {t : Targets} {x : Action α} (h : x.Composed .all t) :
    x.Renders := by
  intro c d hcd
  induction h with
  | atOnce f hf => exact fun w => Course.renders_course (f w)
  | declare e name kind value he => exact fun w => rfl
  | assign e name v he =>
    intro w
    rw [assign_eq, assign_eq]
    exact Course.renders_course _
  | within s hf ih =>
    exact fun w => ih (w.scopes.alloc s).1 trivial ⟨w.heap, (w.scopes.alloc s).2, w.depth⟩
  | @decides _ e x hx ihx =>
    intro w
    rw [decideThis_eq, decideThis_eq]
    split
    · exact Course.renders_course (.broke decidedTwice w)
    · exact (ihx w).bind fun v u => Course.renders_course (.done v (u.withThis e v))
  | @source _ _ f hf ih =>
    intro w
    change (f c.source c w).Renders (f d.source d w)
    exact hcd.source ▸ ih c.source trivial w
  | realm => exact fun w => congrArg (Course.done · w) hcd.realm.symm
  | room => exact fun w => congrArg (Course.done · w) hcd.room.symm
  | tell f hf =>
    intro w _
    refine ⟨_, by rw [(hf w.heap).inText]; rfl, fun r => ?_⟩
    cases r <;> exact rfl
  | look r hf ih => exact fun w => ih (w.heap.get r) (Means.carries_all _) w
  | bind hx hf ihx ihf => exact fun w => (ihx w).bind ihf
  | @handle _ _ _ _ x f hx hf hstop ihx ihf =>
    intro w
    refine (ihx w).attempt.bind (f := fun r w => f r c w) (g := fun r w => f r d w) fun r w => ?_
    by_cases hr : r = .error .stopped
    · rw [hr, hstop]
      exact rfl
    · exact ihf r hr (fun _ _ => .inl trivial) w
  | deeper hK hx ihx => exact fun w => (ihx _).mapWorld _
  | eval n e isHead hn => exact hcd.inner.eval n e isHead
  | exec n e labels hn htu he => exact hcd.inner.exec n e labels
  | bindTarget n v e mode hn he => exact hcd.inner.bind n v e mode
  | call f this args => exact hcd.inner.call f this args
  | construct f args newTarget => exact hcd.inner.construct f args newTarget

end Stepper.Machine

namespace Stepper.Execution

open Syntax Machine Builtin

/-- Where the one host hears plain data, the other hears its text. -/
theorem callConsole_renders (k : ConsoleKind) (args : List Value) :
    (callConsole k args).Renders := by
  intro c d hcd w
  have hbare : callConsole k args c w =
      (do Action.tell fun heap => .console k (.values heap c.room args); return Value.undefined :
        Action Value) c w := by
    change ((if c.wantsText then _ else _ : Action Value) c w) = _
    rw [hcd.bare]
    rfl
  rw [hbare]
  intro hplain
  have hpieces : Action.collect consoleText args d w =
      .done (args.map (printed w.heap d.room)) w :=
    collect_of_done fun v hv => consoleText_eq v w (hcd.room ▸ hplain v hv)
  have htext : callConsole k args d w =
      (do
        Action.tell fun _ => .console k (.text (Text.join " " (args.map (printed w.heap d.room))))
        return Value.undefined : Action Value) d w := by
    change ((if d.wantsText then _ else _ : Action Value) d w) = _
    rw [hcd.text]
    exact bind_of_done hpieces _
  rw [htext]
  refine ⟨_, by rw [hcd.room]; rfl, fun r => ?_⟩
  cases r <;> exact rfl

/-- Only the console writes what it is given; any other call is the same. -/
theorem callValue_renders (f this : Value) (args : List Value) : (callValue f this args).Renders := by
  intro c d hcd w
  obtain ⟨x, hx | ⟨k, rfl⟩, hcall⟩ :=
    callValue_cases (u := {}) args this Means.hereditary_all trivial f (Means.sound_all w.heap)
  · rw [hcall, hcall]
    exact hx.renders c d hcd w
  · rw [hcall, hcall]
    exact callConsole_renders k args c d hcd w

theorem evaluatorIn_renders {c d : Context} (hcd : c.Renders d) :
    (evaluatorIn c).Renders (evaluatorIn d) where
  eval n e isHead :=
    (Action.composed_evaluate (t := {}) e Means.hereditary_all (Means.expression_all n) trivial
      isHead).renders c d hcd
  exec _ _ _ :=
    (Action.composed_execute (t := {}) Means.hereditary_all trivial
      trivial).renders c d hcd
  bind n v e mode :=
    (Action.composed_bindPattern (t := {}) e v mode Means.hereditary_all
      (Means.expression_all n) (fun _ _ => trivial) trivial).renders c d hcd
  call f this args := callValue_renders f this args c d hcd
  construct f args newTarget :=
    (composed_constructValue (u := {}) args newTarget Means.hereditary_all trivial f).renders c d hcd

/-- Level by level the two evaluators differ by what the console hands on. -/
theorem evaluator_renders (source : String) (levels : Nat) :
    (evaluator source false levels).Renders (evaluator source true levels) := by
  induction levels with
  | zero => exact ⟨fun _ _ _ _ => rfl, fun _ _ _ _ => rfl, fun _ _ _ _ _ => rfl,
      fun _ _ _ _ => rfl, fun _ _ _ _ => rfl⟩
  | succ levels ih => exact evaluatorIn_renders ⟨rfl, rfl, rfl, rfl, rfl, ih⟩

theorem contextOver_renders (source : String) (levels : Nat) :
    (contextOver source false levels (evaluator source false levels)).Renders
      (contextOver source true levels (evaluator source true levels)) :=
  ⟨rfl, rfl, rfl, rfl, rfl, evaluator_renders source levels⟩

theorem outermostContext_renders (source : String) :
    (outermostContext source false).Renders (outermostContext source true) :=
  contextOver_renders source maxLevels

/-- A program under a host that wants text differs by that only. -/
theorem course_renders (p : Program) : (course p false).Renders (course p true) :=
  (composed_program (t := {}) Means.hereditary_all fun _ _ => trivial).renders _ _
    (outermostContext_renders p.source) initialWorld

/-- To describe an exception may call the hooks and the console, too. -/
theorem details_renders {p : Program} {i : Interrupt} {w : World} {x : Course (Text × Text)}
    (h : details p false i w = some x) : ∃ y, details p true i w = some y ∧ x.Renders y := by
  cases i <;> simp only [details, Option.some.injEq, reduceCtorEq] at h <;> subst h
  case thrown v =>
    exact ⟨_, rfl, (Action.composed_thrownDetails (t := {}) v).renders _ _
      (outermostContext_renders p.source) w⟩
  case raised kind message => exact ⟨_, rfl, rfl⟩

end Stepper.Execution
