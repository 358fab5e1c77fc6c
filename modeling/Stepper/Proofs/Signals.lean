import Stepper.Proofs.Agreement
import Stepper.Proofs.Transcript
import Stepper.Syntax.Diagnosis

/-!
Signals lead to their targets. In a program in which every `break`, `continue` and `return` has its
target around it, in the same function or static block, no signal gets further: none ends a run, and
none crosses a call. That none crosses a call is said by a machine whose calls are watched. Where a
call would end by a signal, this machine goes on with something else, whatever that is; and still it
goes the same way as the machine that is not watched.
-/
namespace Stepper.Machine

open Syntax

variable {α : Type} {K : Means} {source : String}

/-- Evaluates and runs only what is confined in a source, and makes only functions that are. -/
def Means.within (source : String) : Means where
  source s := s = source
  confined t labels n := n.isConfined source t labels = true
  function n := n.kind.isFunction = true ∧ ∃ t labels, n.isConfined source t labels = true
  leaks := False
  descends := True
  opens _ := True
  assigns _ := True

theorem Means.hereditary_within (source : String) : (within source).Hereditary where
  hasSource := ⟨source, rfl⟩
  confined := by
    rintro s t labels n rfl hn c hc
    exact ((Node.isConfined_iff.mp hn).2 c hc).1
  clauses := by
    rintro s t labels n c rfl hn hc hclause d hd
    obtain ⟨hconfined, hholds⟩ := (Node.isConfined_iff.mp hn).2 c hc
    cases hchanges : Targets.changes c.kind with
    | true => exact Node.holdsConfined_iff.mp (hholds hclause hchanges) d hd
    | false =>
      have hd := ((Node.isConfined_iff.mp hconfined).2 d hd).1
      rwa [Targets.ofChild_of_not_changes hchanges] at hd
  suits := by
    rintro s t labels n rfl hn
    exact .inr (Node.isConfined_iff.mp hn).1
  function hn hkind := ⟨hkind, hn⟩
  expression hn := hn.2
  insideFunction := by
    rintro n ⟨hkind, t, labels, hn⟩ c hc
    have hc := ((Node.isConfined_iff.mp hn).2 c hc).1
    rwa [Targets.ofChild_of_isFunction hkind] at hc

theorem Means.not_isSignal_of_admits {i : Interrupt} (h : (within source).Admits {} i) :
    ¬ i.IsSignal := Targets.not_isSignal_of_admits_none (h.resolve_left id)

/-- Where a course would end by a signal, an alarm goes on instead. -/
def Course.watched (alarm : Interrupt → World → Course α) : Course α → Course α
  | .done a w => .done a w
  | .broke i w => if i.IsSignal then alarm i w else .broke i w
  | .tell c w next => .tell c w fun r => (next r).watched alarm

theorem Course.Keeps.watched {x : Course α} (h : x.Keeps (.within source) {})
    (alarm : Interrupt → World → Course α) : x.watched alarm = x := by
  induction x with
  | done a w => rfl
  | broke i w => exact if_neg (Means.not_isSignal_of_admits h.2)
  | tell c w next ih => exact congrArg (Course.tell c w) (funext fun r => ih r (h r))

/-- An evaluator whose calls are watched. -/
def Evaluator.watched (alarm : Interrupt → World → Course Value) (m : Evaluator) : Evaluator :=
  { m with
    call := fun f this args w => (m.call f this args w).watched alarm
    construct := fun f args newTarget w => (m.construct f args newTarget w).watched alarm }

theorem Evaluator.Agrees.watched {m m' : Evaluator} (h : m.Agrees (.within source) m')
    (alarm : Interrupt → World → Course Value) :
    m.Agrees (.within source) (m'.watched alarm) where
  eval := h.eval
  exec := h.exec
  bind := h.bind
  call f this args w hw := by
    obtain ⟨heq, hkeeps⟩ := h.call f this args w hw
    exact ⟨(congrArg _ heq).trans (hkeeps.watched alarm), hkeeps⟩
  construct f args newTarget w hw := by
    obtain ⟨heq, hkeeps⟩ := h.construct f args newTarget w hw
    exact ⟨(congrArg _ heq).trans (hkeeps.watched alarm), hkeeps⟩

end Stepper.Machine

namespace Stepper.Execution

open Syntax Machine Builtin

/-- The evaluator for a program and some levels in which all calls are watched. -/
def watchedEvaluator (alarm : Interrupt → World → Course Value) (source : String)
    (wantsText : Bool) : Nat → Evaluator
  | 0 => exhausted
  | levels + 1 =>
    (evaluatorIn (contextOver source wantsText levels
      (watchedEvaluator alarm source wantsText levels))).watched alarm

def watchedContext (alarm : Interrupt → World → Course Value) (source : String)
    (wantsText : Bool) : Context :=
  contextOver source wantsText maxLevels (watchedEvaluator alarm source wantsText maxLevels)

section

variable (alarm : Interrupt → World → Course Value) (source : String) (wantsText : Bool)

/-- Contexts agree if their evaluators do. -/
theorem contextOver_agrees {levels : Nat} {m m' : Evaluator} (h : m.Agrees (.within source) m') :
    (contextOver source wantsText levels m).Agrees (.within source)
      (contextOver source wantsText levels m') :=
  ⟨rfl, rfl, rfl, rfl, rfl, h⟩

theorem evaluator_agrees (levels : Nat) : (evaluator source wantsText levels).Agrees (.within source)
    (watchedEvaluator alarm source wantsText levels) := by
  induction levels with
  | zero => exact exhausted_agrees
  | succ levels ih =>
    exact Evaluator.Agrees.watched
      (evaluatorIn_agrees (fun _ => trivial) (fun _ => trivial) (Means.hereditary_within source)
        trivial (contextOver_agrees source wantsText ih)) alarm

theorem watchedContext_agrees : (outermostContext source wantsText).Agrees (.within source)
    (watchedContext alarm source wantsText) :=
  contextOver_agrees source wantsText (evaluator_agrees alarm source wantsText maxLevels)

end

theorem sound_of_no_closures {h : Heap}
    (hnone : (h.objects.all fun o => (Action.closureOf? o).isNone) = true) (K : Means) :
    K.Sound h := by
  refine fun r => Means.carries_of_content fun c hc => ?_
  have hcontent : (Action.closureOf? (h.get r)).isNone = true := by
    unfold Heap.get
    rw [Array.getD_eq_getD_getElem?]
    cases ho : h.objects[r.index]? with
    | none => rfl
    | some o => exact Array.all_eq_true_iff_forall_mem.mp hnone o (Array.mem_of_getElem? ho)
  simp [Action.closureOf?, hc] at hcontent

/-- No function of a program is there before it runs. -/
theorem sound_setting (K : Means) : K.Sound setting.heap :=
  sound_of_no_closures (by decide +kernel) K

section

variable {p : Program} (hp : p.isConfined = true)

include hp

/-- A confined program does the same if its calls are watched. -/
theorem program_agrees (alarm : Interrupt → World → Course Value) (wantsText : Bool) :
    (course p wantsText).Agrees (.within p.source) {}
      (program p.root (watchedContext alarm p.source wantsText) initialWorld) :=
  (composed_program (Means.hereditary_within p.source) fun s hs =>
    Node.holdsConfined_iff.mp hp s (List.mem_filter.mp hs).1).agrees (fun _ => trivial) _ _
      (watchedContext_agrees alarm p.source wantsText) initialWorld (sound_setting _)

theorem keeps_run {σ : Type} (host : Host σ) (s : σ) :
    (run p host s).1.Keeps (.within p.source) {} :=
  (program_agrees hp (fun i w => .broke i w) host.wantsText).keeps.drive host s

end

theorem thrownDetails_agrees (alarm : Interrupt → World → Course Value) (source : String)
    (wantsText : Bool) (v : Value) {w : World} (hw : (Means.within source).Sound w.heap) :
    (Action.thrownDetails v (outermostContext source wantsText) w).Agrees (.within source) {}
      (Action.thrownDetails v (watchedContext alarm source wantsText) w) :=
  (Action.composed_thrownDetails v).agrees (fun _ => trivial) _ _
    (watchedContext_agrees alarm source wantsText) w hw

theorem keeps_details {p : Program} {wantsText : Bool} {i : Interrupt} {w : World}
    {x : Course (Text × Text)} (hw : (Means.within p.source).Sound w.heap)
    (h : details p wantsText i w = some x) : x.Keeps (.within p.source) {} := by
  cases i <;> simp only [details, Option.some.injEq, reduceCtorEq] at h <;> subst h
  case thrown v =>
    exact (thrownDetails_agrees (fun i w => .broke i w) p.source wantsText v hw).keeps
  case raised kind message => exact hw

theorem not_isSignal_of_endingOf {σ : Type} {p : Program} {host : Host σ} {i j : Interrupt}
    {w : World} {s : σ} (hi : ¬ i.IsSignal) (hw : (Means.within p.source).Sound w.heap)
    (h : (endingOf p host i w s).1 = .failed j) : ¬ j.IsSignal := by
  cases hd : details p host.wantsText i w with
  | none =>
    rw [endingOf_of_none hd] at h
    cases h
    exact hi
  | some x =>
    rw [endingOf_of_some hd] at h
    have hx := (keeps_details hw hd).drive host s
    cases houtcome : (x.drive host s).1 with
    | done a w =>
      rw [houtcome] at h
      cases h
    | broke k w =>
      rw [houtcome] at h hx
      cases h
      exact Means.not_isSignal_of_admits hx.2

/-- No signal ends a run, be it while an exception describes itself, and none crosses a call: an
alarm for that is never raised. -/
theorem signals_have_targets {p : Program} (hp : p.isConfined = true) :
    (∀ alarm wantsText, program p.root (watchedContext alarm p.source wantsText) initialWorld =
      course p wantsText) ∧
    ∀ (σ : Type) (host : Host σ) (s : σ),
      (∀ i w, (run p host s).1 = .broke i w → ¬ i.IsSignal) ∧
      (∀ v w alarm, (run p host s).1 = .broke (.thrown v) w →
        Action.thrownDetails v (watchedContext alarm p.source host.wantsText) w =
          Action.thrownDetails v (outermostContext p.source host.wantsText) w) ∧
      ∀ i, (runToEnd p host s).1 = .failed i → ¬ i.IsSignal := by
  have hbroke {σ : Type} {host : Host σ} {s : σ} {i : Interrupt} {w : World}
      (h : (run p host s).1 = .broke i w) :
      (Means.within p.source).Sound w.heap ∧ ¬ i.IsSignal := by
    have hkeeps := keeps_run hp host s
    rw [h] at hkeeps
    exact ⟨hkeeps.1, Means.not_isSignal_of_admits hkeeps.2⟩
  refine ⟨fun alarm wantsText => (program_agrees hp alarm wantsText).eq, fun σ host s =>
    ⟨fun i w h => (hbroke h).2, fun v w alarm h => ?_, fun i h => ?_⟩⟩
  · exact (thrownDetails_agrees alarm p.source host.wantsText v (hbroke h).1).eq
  · rcases hrun : run p host s with ⟨outcome, s'⟩
    cases outcome with
    | done a w =>
      rw [runToEnd_of_done hrun] at h
      cases h
    | broke j w =>
      obtain ⟨hw, hj⟩ := hbroke (congrArg Prod.fst hrun)
      rw [runToEnd_of_broke hrun] at h
      exact not_isSignal_of_endingOf hj hw h

/-- Leaves loops and a function, out of a loop through a finalizer. -/
def leavingSource : String :=
  "a: for (const x of [0, 1]) try \x7b for (;;) if (x) break; else continue a; \x7d " ++
  "finally \x7b [x].map(y => \x7b return y; \x7d); \x7d"

def readsConfined (source : String) : Bool := match read source with
  | .ok p => p.isConfined
  | .error _ => false

theorem readsConfined_spec {source : String} (h : readsConfined source = true) :
    ∃ p, read source = .ok p ∧ p.isConfined = true := by
  unfold readsConfined at h
  split at h
  · next p hread => exact ⟨p, hread, h⟩
  · cases h

theorem leavingSource_has_targets :
    ∃ p, read leavingSource = .ok p ∧ p.isConfined = true ∧
      (∀ alarm wantsText, program p.root (watchedContext alarm p.source wantsText) initialWorld =
        course p wantsText) ∧
      ∀ i, (runToEnd p recorder []).1 = .failed i → ¬ i.IsSignal := by
  have hreads : readsConfined leavingSource = true := by decide +kernel
  obtain ⟨p, hread, hconfined⟩ := readsConfined_spec hreads
  obtain ⟨hwatched, hends⟩ := signals_have_targets hconfined
  exact ⟨p, hread, hconfined, hwatched, (hends _ recorder []).2.2⟩

end Stepper.Execution
