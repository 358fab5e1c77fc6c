import Stepper.Proofs.Composition.Program

/-!
Two machines that go the same way. Of a course that keeps to its means every end leaves a sound heap
behind, and is a signal only where that has a target. If two evaluators agree, with courses that
keep to their means, on all that may be evaluated and run, then so do they on every composed action:
they may differ in what never comes to be evaluated.
-/
namespace Stepper.Machine

open Syntax

variable {α β : Type} {K : Means} {t u : Targets}

namespace Course

/-- Every end leaves a sound heap, and is a signal only where that has a target. -/
def Keeps (K : Means) (t : Targets) : Course α → Prop
  | .done _ w => K.Sound w.heap
  | .broke i w => K.Sound w.heap ∧ K.Admits t i
  | .tell _ _ next => ∀ r, (next r).Keeps K t

/-- One course that keeps to the means. -/
structure Agrees (K : Means) (t : Targets) (x y : Course α) : Prop where
  eq : y = x
  keeps : x.Keeps K t

theorem Keeps.agrees {x : Course α} (h : x.Keeps K t) : x.Agrees K t x := ⟨rfl, h⟩

theorem Keeps.mono {x : Course α} (h : x.Keeps K t) (htu : t ≤ u) : x.Keeps K u := by
  induction x with
  | done a w => exact h
  | broke i w => exact ⟨h.1, h.2.mono htu⟩
  | tell c w next ih => exact fun r => ih r (h r)

theorem Agrees.mono {x y : Course α} (h : x.Agrees K t y) (htu : t ≤ u) : x.Agrees K u y :=
  ⟨h.eq, h.keeps.mono htu⟩

theorem keeps_course {x : Outcome α} (h : x.Keeps K t) : x.course.Keeps K t := by
  cases x with
  | done a w => exact h
  | broke i w => exact h

theorem Agrees.bind {x y : Course α} {f g : α → World → Course β} (h : x.Agrees K t y)
    (hfg : ∀ a w, K.Sound w.heap → (f a w).Agrees K t (g a w)) :
    (x.bind f).Agrees K t (y.bind g) := by
  obtain ⟨rfl, hx⟩ := h
  induction y with
  | done a w => exact hfg a w hx
  | broke i w => exact Keeps.agrees hx
  | tell c w next ih =>
    exact ⟨congrArg (Course.tell c w) (funext fun r => (ih r (hx r)).eq),
      fun r => (ih r (hx r)).keeps⟩

/-- What looks at what a course came to has to do only with what may cut it short. -/
theorem Agrees.handle {x y : Course α} {f g : Except Interrupt α → World → Course β}
    (h : x.Agrees K u y) (hfg : ∀ r w, (∀ i, r = .error i → K.Admits u i) → K.Sound w.heap →
      (f r w).Agrees K t (g r w)) : (x.attempt.bind f).Agrees K t (y.attempt.bind g) := by
  obtain ⟨rfl, hx⟩ := h
  induction y with
  | done a w => exact hfg (.ok a) w nofun hx
  | broke i w =>
    exact hfg (.error i) w (fun j hj => by cases hj; exact hx.2) hx.1
  | tell c w next ih =>
    exact ⟨congrArg (Course.tell c w) (funext fun r => (ih r (hx r)).eq),
      fun r => (ih r (hx r)).keeps⟩

theorem Keeps.mapWorld {x : Course α} (h : x.Keeps K t) {f : World → World}
    (hf : ∀ w, (f w).heap = w.heap) : (x.mapWorld f).Keeps K t := by
  induction x with
  | done a w =>
    change K.Sound (f w).heap
    exact hf w ▸ h
  | broke i w =>
    refine ⟨?_, h.2⟩
    exact hf w ▸ h.1
  | tell c w next ih => exact fun r => ih r (h r)

theorem Agrees.mapWorld {x y : Course α} (h : x.Agrees K t y) {f : World → World}
    (hf : ∀ w, (f w).heap = w.heap) : (x.mapWorld f).Agrees K t (y.mapWorld f) :=
  ⟨congrArg _ h.eq, h.keeps.mapWorld hf⟩

/-- What is true of the ends of a course is true of how it ends under a host. -/
theorem Keeps.drive {σ : Type} {x : Course α} (h : x.Keeps K t) (host : Host σ) (s : σ) :
    (x.drive host s).1.Keeps K t := by
  induction x generalizing s with
  | done a w => exact h
  | broke i w => exact h
  | tell c w next ih => exact ih _ (h _) _

end Course

/-- Evaluators that agree on all that may be evaluated and run. -/
structure Evaluator.Agrees (K : Means) (m m' : Evaluator) : Prop where
  eval : ∀ n e isHead w, K.expression n → K.Sound w.heap →
    (m.eval n e isHead w).Agrees K {} (m'.eval n e isHead w)
  exec : ∀ t n e labels w, K.confined t labels n → K.Sound w.heap →
    (m.exec n e labels w).Agrees K t (m'.exec n e labels w)
  bind : ∀ n v e mode w, K.expression n → K.Sound w.heap →
    (m.bind n v e mode w).Agrees K {} (m'.bind n v e mode w)
  call : ∀ f this args w, K.Sound w.heap →
    (m.call f this args w).Agrees K {} (m'.call f this args w)
  construct : ∀ f args newTarget w, K.Sound w.heap →
    (m.construct f args newTarget w).Agrees K {} (m'.construct f args newTarget w)

/-- Contexts that differ at most in their evaluators. -/
structure Context.Agrees (K : Means) (c d : Context) : Prop where
  source : d.source = c.source
  wantsText : d.wantsText = c.wantsText
  realm : d.realm = c.realm
  room : d.room = c.room
  isSource : K.source c.source
  inner : c.inner.Agrees K d.inner

def Action.Agrees (K : Means) (t : Targets) (x : Action α) : Prop := ∀ c d : Context,
  c.Agrees K d → ∀ w, K.Sound w.heap → (x c w).Agrees K t (x d w)

theorem Action.Agrees.bind {x : Action α} {f : α → Action β} (hx : x.Agrees K t)
    (hf : ∀ a, (f a).Agrees K t) : (x >>= f).Agrees K t :=
  fun c d hcd w hw => (hx c d hcd w hw).bind fun a => hf a c d hcd

theorem Action.agrees_tell (f : Heap → Call) : (Action.tell f).Agrees K t := by
  refine fun c d hcd w hw => Course.Keeps.agrees fun r => ?_
  cases r with
  | proceed => exact hw
  | stop => exact ⟨hw, .inr trivial⟩
  | refuse => exact ⟨hw, .inr trivial⟩
  | fault f => exact ⟨hw, .inr trivial⟩

theorem Action.Composed.agrees {x : Action α} (h : x.Composed K t) (hopen : ∀ e, K.opens e) :
    x.Agrees K t := by
  intro c d hcd
  induction h with
  | atOnce f hf => exact fun w hw => (Course.keeps_course (hf w hw)).agrees
  | declare e name kind value he => exact fun w hw => ⟨rfl, hw⟩
  | assign e name v he =>
    intro w hw
    rw [assign_eq, assign_eq]
    exact (Course.keeps_course (keeps_assigned hw e name v)).agrees
  | within s hf ih =>
    exact fun w hw => ih (w.scopes.alloc s).1 (hopen _) ⟨w.heap, (w.scopes.alloc s).2, w.depth⟩ hw
  | @decides _ e x hx ihx =>
    intro w hw
    rw [decideThis_eq, decideThis_eq]
    split
    · exact Course.Keeps.agrees ⟨hw, .inr trivial⟩
    · exact (ihx w hw).bind fun v u hu => Course.Keeps.agrees hu
  | @source _ _ f hf ih =>
    intro w hw
    change (f c.source c w).Agrees K _ (f d.source d w)
    rw [hcd.source]
    exact ih c.source hcd.isSource w hw
  | realm => exact fun w hw => ⟨congrArg (Course.done · w) hcd.realm, hw⟩
  | room => exact fun w hw => ⟨congrArg (Course.done · w) hcd.room, hw⟩
  | tell f hf => exact Action.agrees_tell f c d hcd
  | look r hf ih => exact fun w hw => ih (w.heap.get r) (hw r) w hw
  | bind hx hf ihx ihf => exact fun w hw => (ihx w hw).bind ihf
  | @handle _ _ _ _ x f hx hf hstop ihx ihf =>
    refine fun w hw => (ihx w hw).handle (f := fun r w => f r c w) (g := fun r w => f r d w)
      fun r w hr hw => ?_
    by_cases hr' : r = .error .stopped
    · rw [hr', hstop]
      exact Course.Keeps.agrees ⟨hw, .inr trivial⟩
    · exact ihf r hr' hr w hw
  | deeper hK hx ih =>
    exact fun w hw => (ih { w with depth := w.depth + 1 } hw).mapWorld fun _ => rfl
  | eval n e isHead hn =>
    exact fun w hw => (hcd.inner.eval n e isHead w hn hw).mono (Targets.none_le _)
  | exec n e labels hn hut he => exact fun w hw => (hcd.inner.exec _ n e labels w hn hw).mono hut
  | bindTarget n v e mode hn he =>
    exact fun w hw => (hcd.inner.bind n v e mode w hn hw).mono (Targets.none_le _)
  | call f this args =>
    exact fun w hw => (hcd.inner.call f this args w hw).mono (Targets.none_le _)
  | construct f args newTarget =>
    exact fun w hw => (hcd.inner.construct f args newTarget w hw).mono (Targets.none_le _)

end Stepper.Machine

namespace Stepper.Execution

open Machine Builtin

variable {K : Means} {t : Targets} (hopen : ∀ e, K.opens e)

include hopen

theorem callConsole_agrees (k : ConsoleKind) (args : List Value) :
    (callConsole k args).Agrees K t := by
  have htold (f : Heap → Call) : (do Action.tell f; return Value.undefined).Agrees K t :=
    (Action.agrees_tell f).bind fun _ => (Action.composed_pure _).agrees hopen
  intro c d hcd w hw
  change ((if c.wantsText then _ else _ : Action Value) c w).Agrees K t
    ((if d.wantsText then _ else _ : Action Value) d w)
  rw [hcd.wantsText]
  cases c.wantsText with
  | true =>
    exact Action.Agrees.bind ((Action.composed_collect (fun _ => composed_consoleText _) args).agrees
      hopen) (fun pieces => htold _) c d hcd w hw
  | false =>
    exact Action.Agrees.bind (Action.Composed.room.agrees hopen) (fun room => htold _) c d hcd w hw

theorem callValue_agrees (hK : K.Hereditary) (hdeep : K.descends) (f this : Value)
    (args : List Value) : (callValue f this args).Agrees K t := by
  intro c d hcd w hw
  obtain ⟨x, hx | ⟨k, rfl⟩, hcall⟩ := callValue_cases (u := t) args this hK hdeep f hw
  · rw [hcall, hcall]
    exact hx.agrees hopen c d hcd w hw
  · rw [hcall, hcall]
    exact callConsole_agrees hopen k args c d hcd w hw

/-- What is evaluated in contexts that agree. -/
theorem evaluatorIn_agrees (hassign : ∀ e, K.assigns e) (hK : K.Hereditary) (hdeep : K.descends)
    {c d : Context} (hcd : c.Agrees K d) : (evaluatorIn c).Agrees K (evaluatorIn d) where
  eval _ e isHead w hn hw :=
    (Action.composed_evaluate e hK hn (hassign e) isHead).agrees hopen c d hcd w hw
  exec _ _ e _ w hn hw := (Action.composed_execute hK (hopen e) hn).agrees hopen c d hcd w hw
  bind _ v e mode w hn hw :=
    (Action.composed_bindPattern e v mode hK hn (fun _ _ => hopen e) (hassign e)).agrees hopen
      c d hcd w hw
  call f this args w hw := callValue_agrees hopen hK hdeep f this args c d hcd w hw
  construct f args newTarget w hw :=
    (composed_constructValue args newTarget hK hdeep f).agrees hopen c d hcd w hw

omit hopen

theorem exhausted_agrees : exhausted.Agrees K exhausted where
  eval _ _ _ _ _ hw := Course.Keeps.agrees ⟨hw, .inr trivial⟩
  exec _ _ _ _ _ _ hw := Course.Keeps.agrees ⟨hw, .inr trivial⟩
  bind _ _ _ _ _ _ hw := Course.Keeps.agrees ⟨hw, .inr trivial⟩
  call _ _ _ _ hw := Course.Keeps.agrees ⟨hw, .inr trivial⟩
  construct _ _ _ _ hw := Course.Keeps.agrees ⟨hw, .inr trivial⟩

end Stepper.Execution
