import Stepper.Proofs.Composition.Law

/-!
A machine that tells more. The host of a program hears of the states in which it calls the host, and
of no others. A narrated machine also tells it of the state that any evaluation begins in and of the
one that it ends in, at every level. Nothing else is changed by that: without what was told on top,
the course is the one it was. What holds of all that a narrated course tells thus holds of the
states in between, too.
-/
namespace Stepper.Machine

open Syntax

variable {α β : Type}

namespace Course

/-- The course, telling of the state it ends in as well. -/
def tellingEnd : Course α → Course α
  | .done a w => .tell .memory w fun _ => .done a w
  | .broke i w => .tell .memory w fun _ => .broke i w
  | .tell c w next => .tell c w fun r => (next r).tellingEnd

/-- Tells of the state that a course begins in and of the one it ends in. -/
def telling (x : World → Course α) (w : World) : Course α :=
  .tell .memory w fun _ => (x w).tellingEnd

/-- The second course goes the way of the first, whatever is replied to what it tells on top. -/
inductive Narrates : Course α → Course α → Prop
  | done (a : α) (w : World) : Narrates (.done a w) (.done a w)
  | broke (i : Interrupt) (w : World) : Narrates (.broke i w) (.broke i w)
  | tell (c : Call) (w : World) {next next' : Reply → Course α}
    (h : ∀ r, Narrates (next r) (next' r)) : Narrates (.tell c w next) (.tell c w next')
  | aside (w : World) {x : Course α} {next : Reply → Course α}
    (h : ∀ r, Narrates x (next r)) : Narrates x (.tell .memory w next)

namespace Narrates

variable {x y : Course α}

theorem bind {f g : α → World → Course β} (h : x.Narrates y)
    (hf : ∀ a w, (f a w).Narrates (g a w)) : (x.bind f).Narrates (y.bind g) := by
  induction h with
  | done a w => exact hf a w
  | broke i w => exact .broke i w
  | tell c w h ih => exact .tell c w ih
  | aside w h ih => exact .aside w ih

theorem attempt (h : x.Narrates y) : x.attempt.Narrates y.attempt := by
  induction h with
  | done a w => exact .done _ w
  | broke i w => exact .done _ w
  | tell c w h ih => exact .tell c w ih
  | aside w h ih => exact .aside w ih

theorem mapWorld (h : x.Narrates y) (f : World → World) :
    (x.mapWorld f).Narrates (y.mapWorld f) := by
  induction h with
  | done a w => exact .done a (f w)
  | broke i w => exact .broke i (f w)
  | tell c w h ih => exact .tell c w ih
  | aside w h ih => exact .aside w ih

theorem tellingEnd (h : x.Narrates y) : x.Narrates y.tellingEnd := by
  induction h with
  | done a w => exact .aside w fun _ => .done a w
  | broke i w => exact .aside w fun _ => .broke i w
  | tell c w h ih => exact .tell c w ih
  | aside w h ih => exact .aside w ih

end Narrates

/-- A machine that tells of its beginning and its end narrates what it does. -/
theorem narrates_telling {x y : World → Course α} (h : ∀ w, (x w).Narrates (y w)) (w : World) :
    (x w).Narrates (telling y w) := .aside w fun _ => (h w).tellingEnd

theorem narrates_course (x : Outcome α) : x.course.Narrates x.course := by
  cases x with
  | done a w => exact .done a w
  | broke i w => exact .broke i w

end Course

namespace Evaluator

/-- The evaluator, telling of the states that each evaluation begins and ends in. -/
def narrated (m : Evaluator) : Evaluator where
  eval n e isHead := Course.telling (m.eval n e isHead)
  exec n e labels := Course.telling (m.exec n e labels)
  bind n v e mode := Course.telling (m.bind n v e mode)
  call f this args := Course.telling (m.call f this args)
  construct f args newTarget := Course.telling (m.construct f args newTarget)

structure Narrates (m m' : Evaluator) : Prop where
  eval : ∀ n e isHead w, (m.eval n e isHead w).Narrates (m'.eval n e isHead w)
  exec : ∀ n e labels w, (m.exec n e labels w).Narrates (m'.exec n e labels w)
  bind : ∀ n v e mode w, (m.bind n v e mode w).Narrates (m'.bind n v e mode w)
  call : ∀ f this args w, (m.call f this args w).Narrates (m'.call f this args w)
  construct : ∀ f args newTarget w,
    (m.construct f args newTarget w).Narrates (m'.construct f args newTarget w)

/-- An evaluator that tells of each evaluation narrates the one beneath. -/
theorem Narrates.narrated {m m' : Evaluator} (h : m.Narrates m') : m.Narrates m'.narrated where
  eval n e isHead := Course.narrates_telling (h.eval n e isHead)
  exec n e labels := Course.narrates_telling (h.exec n e labels)
  bind n v e mode := Course.narrates_telling (h.bind n v e mode)
  call f this args := Course.narrates_telling (h.call f this args)
  construct f args newTarget := Course.narrates_telling (h.construct f args newTarget)

end Evaluator

/-- Contexts of which the second evaluates what is nested with more told. -/
structure Context.Narrates (c d : Context) : Prop where
  source : c.source = d.source
  wantsText : c.wantsText = d.wantsText
  realm : c.realm = d.realm
  room : c.room = d.room
  inner : c.inner.Narrates d.inner

def Action.Narrates (x : Action α) : Prop := ∀ c d : Context, c.Narrates d →
  ∀ w, (x c w).Narrates (x d w)

theorem Action.Narrates.bind {x : Action α} {f : α → Action β} (hx : x.Narrates)
    (hf : ∀ a, (f a).Narrates) : (x >>= f).Narrates :=
  fun c d hcd w => (hx c d hcd w).bind fun a => hf a c d hcd

theorem Action.narrates_tell (f : Heap → Call) : (tell f).Narrates := by
  refine fun c d _ w => .tell (f w.heap) w fun r => ?_
  cases r with
  | proceed => exact .done () w
  | _ => exact .broke _ w

/-- What is composed of single operations is narrated by a narrated evaluator. -/
theorem Action.Composed.narrates {t : Targets} {x : Action α} (h : x.Composed .all t) :
    x.Narrates := by
  intro c d hcd
  induction h with
  | atOnce f hf => exact fun w => Course.narrates_course (f w)
  | declare e name kind value he => exact fun w => .done () _
  | assign e name v he =>
    intro w
    rw [assign_eq, assign_eq]
    exact Course.narrates_course _
  | within s hf ih =>
    exact fun w => ih (w.scopes.alloc s).1 trivial ⟨w.heap, (w.scopes.alloc s).2, w.depth⟩
  | @decides _ e x hx ihx =>
    intro w
    rw [decideThis_eq, decideThis_eq]
    split
    · exact .broke decidedTwice w
    · exact (ihx w).bind fun v u => .done v (u.withThis e v)
  | @source _ _ f hf ih =>
    intro w
    change (f c.source c w).Narrates (f d.source d w)
    exact hcd.source ▸ ih c.source trivial w
  | realm =>
    intro w
    change (Course.done c.realm w).Narrates (.done d.realm w)
    exact hcd.realm ▸ .done c.realm w
  | room =>
    intro w
    change (Course.done c.room w).Narrates (.done d.room w)
    exact hcd.room ▸ .done c.room w
  | tell f hf => exact narrates_tell f c d hcd
  | look r hf ih => exact fun w => ih (w.heap.get r) (Means.carries_all _) w
  | bind hx hf ihx ihf => exact fun w => (ihx w).bind ihf
  | @handle _ _ _ _ x f hx hf hstop ihx ihf =>
    intro w
    refine (ihx w).attempt.bind (f := fun r w => f r c w) (g := fun r w => f r d w) fun r w => ?_
    by_cases hr : r = .error .stopped
    · rw [hr, hstop]
      exact .broke .stopped w
    · exact ihf r hr (fun _ _ => .inl trivial) w
  | deeper hK hx ihx => exact fun w => (ihx _).mapWorld _
  | eval n e isHead hn => exact hcd.inner.eval n e isHead
  | exec n e labels hn htu he => exact hcd.inner.exec n e labels
  | bindTarget n v e mode hn he => exact hcd.inner.bind n v e mode
  | call f this args => exact hcd.inner.call f this args
  | construct f args newTarget => exact hcd.inner.construct f args newTarget

end Stepper.Machine

namespace Stepper.Execution

open Syntax Machine Builtin

/-- The evaluator for a program and some levels that tells of every evaluation, at every level. -/
def narratedEvaluator (source : String) (wantsText : Bool) : Nat → Evaluator
  | 0 => exhausted.narrated
  | levels + 1 => (evaluatorIn
      (contextOver source wantsText levels (narratedEvaluator source wantsText levels))).narrated

def narratedContext (source : String) (wantsText : Bool) : Context :=
  { outermostContext source wantsText with inner := narratedEvaluator source wantsText maxLevels }

/-- Goes on with the description of what cut a course short, if it has one. -/
def describing {α β : Type} (describe : Interrupt → World → Option (Course β)) (x : Course α) :
    Course (Except Interrupt α) :=
  x.attempt.bind fun r w => match r with
    | .ok _ => .done r w
    | .error i => match describe i w with
      | none => .done r w
      | some y => y.bind fun _ v => .done r v

/-- The course of a program, telling of every evaluation, and so does the description of an
exception that was not caught. -/
def narratedCourse (p : Program) (wantsText : Bool) : Course (Except Interrupt Unit) :=
  describing (fun i w => match i with
      | .thrown v => some (Action.thrownDetails v (narratedContext p.source wantsText) w)
      | _ => none)
    (program p.root (narratedContext p.source wantsText) initialWorld)

/-- A program with the description of what it did not catch. -/
def describedCourse (p : Program) (wantsText : Bool) : Course (Except Interrupt Unit) :=
  describing (details p wantsText) (course p wantsText)

theorem callConsole_narrates (k : ConsoleKind) (args : List Value) :
    (callConsole k args).Narrates := by
  have htold (f : Heap → Call) : (do Action.tell f; return Value.undefined).Narrates :=
    (Action.narrates_tell f).bind fun _ => (Action.composed_pure (t := {}) _).narrates
  intro c d hcd w
  change ((if c.wantsText then _ else _ : Action Value) c w).Narrates
    ((if d.wantsText then _ else _ : Action Value) d w)
  rw [← hcd.wantsText]
  cases c.wantsText with
  | true =>
    exact Action.Narrates.bind
      (Action.composed_collect (t := {}) (fun _ => composed_consoleText _) args).narrates
      (fun pieces => htold _) c d hcd w
  | false =>
    exact Action.Narrates.bind (Action.Composed.room (t := {})).narrates (fun room => htold _)
      c d hcd w

/-- A call is narrated, of the console or of anything else. -/
theorem callValue_narrates (f this : Value) (args : List Value) :
    (callValue f this args).Narrates := by
  intro c d hcd w
  obtain ⟨x, hx | ⟨k, rfl⟩, hcall⟩ :=
    callValue_cases (u := {}) args this Means.hereditary_all trivial f (Means.sound_all w.heap)
  · rw [hcall, hcall]
    exact hx.narrates c d hcd w
  · rw [hcall, hcall]
    exact callConsole_narrates k args c d hcd w

theorem evaluatorIn_narrates {c d : Context} (hcd : c.Narrates d) :
    (evaluatorIn c).Narrates (evaluatorIn d) where
  eval n e isHead :=
    (Action.composed_evaluate (t := {}) e Means.hereditary_all (Means.expression_all n) trivial
      isHead).narrates c d hcd
  exec _ _ _ :=
    (Action.composed_execute (t := {}) Means.hereditary_all trivial trivial).narrates c d hcd
  bind n v e mode :=
    (Action.composed_bindPattern (t := {}) e v mode Means.hereditary_all
      (Means.expression_all n) (fun _ _ => trivial) trivial).narrates c d hcd
  call f this args := callValue_narrates f this args c d hcd
  construct f args newTarget :=
    (composed_constructValue (u := {}) args newTarget Means.hereditary_all trivial f).narrates
      c d hcd

/-- Level by level the narrating evaluator does the same. -/
theorem evaluator_narrates (source : String) (wantsText : Bool) (levels : Nat) :
    (evaluator source wantsText levels).Narrates (narratedEvaluator source wantsText levels) := by
  induction levels with
  | zero =>
    have hdeep {α : Type} (w : World) :
        (.broke (.fault .nestingTooDeep) w : Course α).Narrates
          (.broke (.fault .nestingTooDeep) w) := .broke _ w
    exact Evaluator.Narrates.narrated ⟨fun _ _ _ => hdeep, fun _ _ _ => hdeep,
      fun _ _ _ _ => hdeep, fun _ _ _ => hdeep, fun _ _ _ => hdeep⟩
  | succ levels ih =>
    let c : Context :=
      (contextOver source wantsText levels (evaluator source wantsText levels))
    have hc : c.Narrates { c with inner := narratedEvaluator source wantsText levels } :=
      ⟨rfl, rfl, rfl, rfl, ih⟩
    exact (evaluatorIn_narrates hc).narrated

theorem outermostContext_narrates (source : String) (wantsText : Bool) :
    (outermostContext source wantsText).Narrates (narratedContext source wantsText) :=
  ⟨rfl, rfl, rfl, rfl, evaluator_narrates source wantsText maxLevels⟩

/-- A program does the same when its states are told of. -/
theorem describedCourse_narrates (p : Program) (wantsText : Bool) :
    (describedCourse p wantsText).Narrates (narratedCourse p wantsText) := by
  have hcontext := outermostContext_narrates p.source wantsText
  have hcourse : (course p wantsText).Narrates
      (program p.root (narratedContext p.source wantsText) initialWorld) :=
    (composed_program (t := {}) Means.hereditary_all fun _ _ => trivial).narrates _ _
      hcontext initialWorld
  refine hcourse.attempt.bind fun r w => ?_
  cases r with
  | ok u => exact .done _ w
  | error i =>
    cases i with
    | thrown v =>
      exact ((Action.composed_thrownDetails (t := {}) v).narrates _ _ hcontext w).bind
        fun _ => .done _
    | _ => exact .done _ w

end Stepper.Execution
