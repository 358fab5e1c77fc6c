import Stepper.Proofs.Persistence

/-!
The depth counts the bodies that are being run. Two things are said of it. Whatever is evaluated,
run, called or constructed leaves it as it was, however that ends; this is a law of courses. And a
machine that knows from how it is built how many bodies are around, asks the counter nothing and
sounds an alarm wherever the counter has another number, goes the same way as the machine that has
the counter alone: so no alarm is ever heard. At the limit a call comes to an error that a statement
around it can catch, before anything of the function called is looked at.
-/
namespace Stepper.Machine

open Syntax

variable {α β σ : Type}

/-! ### Courses and calls -/

namespace Course

/-- The host is told of states of one kind, and the course ends in states of another. -/
def Through (told ended : World → Prop) : Course α → Prop
  | .done _ w => ended w
  | .broke _ w => ended w
  | .tell _ w next => told w ∧ ∀ r, (next r).Through told ended

variable {told ended ended' : World → Prop}

theorem through_course {x : Outcome α} (h : ended x.world) : x.course.Through told ended := by
  cases x <;> exact h

theorem through_tell (told ended : World → Prop) {w : World} (htold : told w) (hended : ended w)
    (f : Heap → Call) (c : Context) : (Action.tell f c w).Through told ended :=
  ⟨htold, fun r => by cases r <;> exact hended⟩

theorem Through.bind {x : Course α} {f : α → World → Course β} (hx : x.Through told ended)
    (hf : ∀ a w, ended w → (f a w).Through told ended') (h : ∀ w, ended w → ended' w) :
    (x.bind f).Through told ended' := by
  induction x with
  | done a w => exact hf a w hx
  | broke i w => exact h w hx
  | tell c w next ih => exact ⟨hx.1, fun r => ih r (hx.2 r)⟩

theorem Through.attempt {x : Course α} (hx : x.Through told ended) :
    x.attempt.Through told ended := by
  induction x with
  | done a w => exact hx
  | broke i w => exact hx
  | tell c w next ih => exact ⟨hx.1, fun r => ih r (hx.2 r)⟩

theorem Through.mapWorld {x : Course α} (hx : x.Through told ended) {f : World → World}
    (hf : ∀ w, ended w → ended' (f w)) : (x.mapWorld f).Through told ended' := by
  induction x with
  | done a w => exact hf w hx
  | broke i w => exact hf w hx
  | tell c w next ih => exact ⟨hx.1, fun r => ih r (hx.2 r)⟩

theorem Through.ends {x : Course α} (hx : x.Through told ended) : x.Ends fun _ w => ended w := by
  induction x with
  | done a w => exact hx
  | broke i w => trivial
  | tell c w next ih => exact fun r => ih r (hx.2 r)

/-- Whatever the host replies, the state that the course ends in is of its kind. -/
theorem Through.drive {x : Course α} (hx : x.Through told ended) (h : Host σ) (s : σ) :
    ended (x.drive h s).1.world := by
  induction x generalizing s with
  | done a w => exact hx
  | broke i w => exact hx
  | tell c w next ih => exact ih _ (hx.2 _) _

/-- However a course ends, it ends as deep as it began. -/
def Restores (w : World) (x : Course α) : Prop := x.Through (fun _ => True) (·.depth = w.depth)

theorem restores_law : Law fun w x => x.Restores w where
  atOnce _ h := through_course h.depth
  tell f c w := through_tell (fun _ => True) (·.depth = w.depth) trivial rfl f c
  bind hx hf := hx.bind (fun a v hv => hv ▸ hf a v) fun _ => id
  handle {α β w x f} hx hf hpass := by
    refine hx.attempt.bind (fun r v hv => ?_) fun _ => id
    by_cases hr : r = .error .stopped
    · rw [hr, hpass]
      exact hv
    · exact hv ▸ hf r hr v
  deeper hx w := (hx { w with depth := w.depth + 1 }).mapWorld fun v hv => by
    simp only [hv, Nat.add_sub_cancel]

end Course

/-- Goes on instead, whatever that is. -/
def Alarm : Type 1 := (α : Type) → World → Course α

/-- Where the course would end at another depth, an alarm goes on instead. -/
def Course.endingAt (d : Nat) (alarm : World → Course α) : Course α → Course α
  | .done a w => if w.depth = d then .done a w else alarm w
  | .broke i w => if w.depth = d then .broke i w else alarm w
  | .tell c w next => .tell c w fun r => (next r).endingAt d alarm

theorem Course.Through.endingAt {told : World → Prop} {d : Nat} {x : Course α}
    (hx : x.Through told (·.depth = d)) (alarm : World → Course α) : x.endingAt d alarm = x := by
  induction x with
  | done a w => exact if_pos hx
  | broke i w => exact if_pos hx
  | tell c w next ih => exact congrArg (Course.tell c w) (funext fun r => ih r (hx.2 r))

/-- Sounds an alarm unless the depth is this one, before and after. -/
def Alarm.at (alarm : Alarm) (d : Nat) (x : World → Course α) (w : World) : Course α :=
  if w.depth = d then (x w).endingAt d (alarm α) else alarm α w

namespace Action

/-- What goes before a call of a function of the program: the scope that it runs in. -/
def enterCall (f : Ref) (c : Closure) (this : Value) : Action ScopeRef := do
  if c.isClassConstructor then
    typeError
      (("Class constructor " : Text) ++ c.name ++ (" cannot be invoked without 'new'" : Text))
  callScope f c (some this) none

theorem callClosure_eq (f : Ref) (c : Closure) (this : Value) (args : List Value) :
    callClosure f c this args = enterCall f c this >>= fun e => invoke c e args := by
  unfold callClosure enterCall
  split <;> rfl

/-- What goes before the constructor runs: the new object, and the scope. -/
def enterConstruct (f : Ref) (c : Closure) (newTarget : Value) : Action ScopeRef := do
  let this ← if c.isDerived then pure none
    else do
      let proto ← prototypeFor newTarget (← realm).objectProto
      let r ← alloc { proto := some proto }
      initializeFields f r
      pure (some (.object r))
  callScope f c this newTarget.ref?

/-- What a constructor has made, by what its body came to. -/
def constructed (e : ScopeRef) (v : Value) : Action Value := do
  match v with
  | .object r => return .object r
  | _ => Action.this e

/-- Whether `new` makes no object by a function. -/
def refusesNew (c : Closure) : Bool := c.isArrow || (c.isMethod && !c.isClassConstructor)

theorem constructClosure_eq (f : Ref) (c : Closure) (args : List Value) (newTarget : Value) :
    constructClosure f c args newTarget =
      if refusesNew c then notConstructor (.object f)
      else enterConstruct f c newTarget >>= fun e => invoke c e args >>= constructed e := by
  unfold constructClosure enterConstruct
  rw [refusesNew]
  split
  · rfl
  · split
    · rfl
    · simp only [bind_assoc]
      rfl

section

variable {K : Means} {t : Targets} (f : Ref) {c : Closure}

theorem composed_enterCall (this : Value) : (enterCall f c this).Composed K t :=
  composed_ite (.bind (composed_typeError _) fun _ => composed_callScope ..) (composed_callScope ..)

theorem composed_enterConstruct (newTarget : Value) :
    (enterConstruct f c newTarget).Composed K t := by
  refine composed_ite (composed_callScope ..) (.bind .realm fun _ => ?_)
  exact .bind (composed_prototypeFor ..) fun _ => .bind (composed_allocData (by nofun)) fun _ =>
    .bind (composed_initializeFields ..) fun _ => composed_callScope ..

theorem composed_constructed (e : ScopeRef) (v : Value) : (constructed e v).Composed K t := by
  cases v with
  | object r => exact composed_pure _
  | _ => exact composed_this e

end

end Action

/-! ### The machine that counts for itself -/

namespace Action

/-- Evaluates what is nested by another evaluator. -/
def under (m : Evaluator) (x : Action α) : Action α := fun c w => x { c with inner := m } w

/-- A body among so many others, and the evaluator for what is in it. -/
def countedBody (alarm : Alarm) (d : Nat) (m : Evaluator) (c : Closure) (n : Node) (e : ScopeRef)
    (args : List Value) : Action Value := fun k w =>
  alarm.at (d + 1) (under m (runBody c n e args) k) w

/-- Runs a function inside so many bodies; their number alone decides whether it goes too deep. -/
def countedInvoke (alarm : Alarm) (d : Nat) (m : Evaluator) (c : Closure) (e : ScopeRef)
    (args : List Value) : Action Value := do
  match c.node with
  | none =>
    if c.isDerived then superConstruct args e
    return .undefined
  | some n =>
    if isGenerator n.kind then typeError "Generator functions are not supported"
    if maxDepth ≤ d then raise .rangeError "Maximum call stack size exceeded"
    finishBody (← attempt (deeper (countedBody alarm d m c n e args)))

end Action
end Stepper.Machine

namespace Stepper.Execution

open Syntax Machine Machine.Action Builtin

variable (alarm : Alarm) (d : Nat) (m : Evaluator)

def countedCall (f this : Value) (args : List Value) : Action Value := do
  match f with
  | .object r =>
    match (← object r).content with
    | .closure c => enterCall r c this >>= fun e => countedInvoke alarm d m c e args
    | content => callContent r content this args
  | _ => notFunction f

def countedConstruct (f : Value) (args : List Value) (newTarget : Value) : Action Value := do
  match f with
  | .object r =>
    match (← object r).content with
    | .native name n => constructNative name n args newTarget
    | .closure c =>
      if refusesNew c then notConstructor f
      else enterConstruct r c newTarget >>= fun e =>
        countedInvoke alarm d m c e args >>= constructed e
    | _ => notConstructor f
  | _ => notConstructor f

/-- The evaluator in a context inside so many bodies, which does nothing where the counter has
another number. -/
def countedIn (c : Context) : Evaluator where
  eval n e isHead := alarm.at d (Action.evaluate n e isHead c)
  exec n e labels := alarm.at d (Action.execute n e labels c)
  bind n v e mode := alarm.at d (Action.bindPattern n v e mode c)
  call f this args := alarm.at d (countedCall alarm d m f this args c)
  construct f args newTarget := alarm.at d (countedConstruct alarm d m f args newTarget c)

/-- The evaluator for a program and some levels inside so many bodies. What a body holds is
evaluated by the one inside one body more. -/
def countedEvaluator (source : String) (wantsText : Bool) : Nat → Nat → Evaluator
  | 0, _ => exhausted
  | levels + 1, d =>
    countedIn alarm d (countedEvaluator source wantsText levels (d + 1))
      (contextOver source wantsText levels (countedEvaluator source wantsText levels d))

/-- Where a program starts, and describes what it did not catch: in no body. -/
def countedContext (source : String) (wantsText : Bool) : Context :=
  (contextOver source wantsText maxLevels (countedEvaluator alarm source wantsText maxLevels 0))

def countedCourse (p : Program) (wantsText : Bool) : Course Unit :=
  program p.root (countedContext alarm p.source wantsText) initialWorld

end Stepper.Execution

/-! ### Both go the same way -/

namespace Stepper.Machine

open Syntax

variable {α β : Type} {d : Nat}

/-- One course, which leaves the depth as it was and tells of no state past the limit. -/
structure Course.Counts (d : Nat) (x y : Course α) : Prop where
  eq : y = x
  through : x.Through (·.depth ≤ maxDepth) (·.depth = d)

namespace Course.Counts

theorem bind {x y : Course α} {f g : α → World → Course β} (h : x.Counts d y)
    (hfg : ∀ a w, w.depth = d → (f a w).Counts d (g a w)) : (x.bind f).Counts d (y.bind g) := by
  obtain ⟨rfl, hx⟩ := h
  refine ⟨?_, hx.bind (fun a w hw => (hfg a w hw).through) fun _ => id⟩
  induction y with
  | done a w => exact (hfg a w hx).eq
  | broke i w => rfl
  | tell c w next ih => exact congrArg (Course.tell c w) (funext fun r => ih r (hx.2 r))

theorem attempt {x y : Course α} (h : x.Counts d y) : x.attempt.Counts d y.attempt :=
  ⟨congrArg _ h.eq, h.through.attempt⟩

/-- The courses are one, so an alarm between them is not heard. -/
theorem at_ {x y : World → Course α} {w : World} (hw : w.depth = d) (h : (x w).Counts d (y w))
    (alarm : Alarm) : (x w).Counts d (alarm.at d y w) := by
  refine ⟨?_, h.through⟩
  rw [Alarm.at, if_pos hw, h.eq]
  exact h.through.endingAt _

end Course.Counts

/-- Evaluators that go the same way inside so many bodies. -/
structure Evaluator.Counts (d : Nat) (m m' : Evaluator) : Prop where
  eval : ∀ n e isHead w, w.depth = d → (m.eval n e isHead w).Counts d (m'.eval n e isHead w)
  exec : ∀ n e labels w, w.depth = d → (m.exec n e labels w).Counts d (m'.exec n e labels w)
  bind : ∀ n v e mode w, w.depth = d → (m.bind n v e mode w).Counts d (m'.bind n v e mode w)
  call : ∀ f this args w, w.depth = d → (m.call f this args w).Counts d (m'.call f this args w)
  construct : ∀ f args newTarget w, w.depth = d →
    (m.construct f args newTarget w).Counts d (m'.construct f args newTarget w)

namespace Action

/-- Actions that go the same way inside so many bodies, in contexts whose evaluators do. -/
def Counts (d : Nat) (x y : Action α) : Prop := ∀ (c : Context) (m : Evaluator),
  c.inner.Counts d m → ∀ w, w.depth = d → (x c w).Counts d (y { c with inner := m } w)

theorem Counts.bind {x y : Action α} {f g : α → Action β} (hxy : x.Counts d y)
    (hfg : ∀ a, (f a).Counts d (g a)) : (x >>= f).Counts d (y >>= g) :=
  fun c m hm w hw => (hxy c m hm w hw).bind fun a v hv => hfg a c m hm v hv

variable (hd : d ≤ maxDepth)

include hd

theorem counts_tell (f : Heap → Call) : (tell f).Counts d (tell f) := fun c _ _ _ hw =>
  ⟨rfl, Course.through_tell (·.depth ≤ maxDepth) (·.depth = d) (hw ▸ hd) hw f c⟩

/-- What is composed without a body. -/
theorem Composed.counts {t : Targets} {x : Action α} (h : x.Composed .level t) :
    x.Counts d x := by
  intro c m hm
  induction h with
  | atOnce f hf hw =>
    exact fun w hd => ⟨rfl, Course.through_course ((hw w).depth.trans hd)⟩
  | declare e name kind value he => exact fun w hw => ⟨rfl, hw⟩
  | assign e name v he =>
    intro w hw
    rw [assign_eq, assign_eq]
    exact ⟨rfl, Course.through_course ((steps_assigned e name v w).depth.trans hw)⟩
  | within s hf ih =>
    exact fun w hw => ih (w.scopes.alloc s).1 trivial ⟨w.heap, (w.scopes.alloc s).2, w.depth⟩ hw
  | @decides _ e x hx ihx =>
    intro w hw
    rw [decideThis_eq, decideThis_eq]
    split
    · exact ⟨rfl, hw⟩
    · exact (ihx w hw).bind fun v u hu => ⟨rfl, hu⟩
  | source hf ih => exact fun w hw => ih c.source trivial w hw
  | realm => exact fun w hw => ⟨rfl, hw⟩
  | room => exact fun w hw => ⟨rfl, hw⟩
  | tell f hf => exact counts_tell hd f c m hm
  | look r hf ih => exact fun w hw => ih (w.heap.get r) (Means.carries_level _) w hw
  | bind hx hf ihx ihf => exact fun w hw => (ihx w hw).bind ihf
  | @handle _ _ _ _ x f hx hf hstop ihx ihf =>
    refine fun w hw => (ihx w hw).attempt.bind (f := fun r w => f r c w)
      (g := fun r w => f r { c with inner := m } w) fun r v hv => ?_
    by_cases hr : r = .error .stopped
    · rw [hr, hstop]
      exact ⟨rfl, hv⟩
    · exact ihf r hr (fun _ _ => .inl trivial) v hv
  | deeper hK hx ihx => exact hK.elim
  | eval n e isHead hn => exact hm.eval n e isHead
  | exec n e labels hn htu he => exact hm.exec n e labels
  | bindTarget n v e mode hn he => exact hm.bind n v e mode
  | call f this args => exact hm.call f this args
  | construct f args newTarget => exact hm.construct f args newTarget

omit hd

/-- Outside the limit the body of a function has the counter one higher, and so has its count. -/
theorem body_counts {k : Context} {m deep : Evaluator} (hdeep : k.inner.Counts (d + 1) deep)
    (hd : d < maxDepth) (alarm : Alarm) (c : Closure) (n : Node) (e : ScopeRef) (args : List Value)
    {w : World} (hw : w.depth = d) :
    (deeper (runBody c n e args) k w).Counts d
      (deeper (countedBody alarm d deep c n e args) { k with inner := m } w) := by
  subst hw
  have hbody := (composed_runBody (K := .level) (e := e) args c Means.hereditary_level trivial
    (n := n) trivial).counts hd k deep hdeep { w with depth := w.depth + 1 } rfl
  have hbody := Course.Counts.at_ (x := runBody c n e args k) (w := { w with depth := w.depth + 1 })
    (y := under deep (runBody c n e args) k) rfl hbody alarm
  exact ⟨congrArg _ hbody.eq, hbody.through.mapWorld fun v hv => by
    simp only [hv, Nat.add_sub_cancel]⟩

theorem invoke_counts {k : Context} {m deep : Evaluator} (hm : k.inner.Counts d m)
    (hdeep : d < maxDepth → k.inner.Counts (d + 1) deep) (hd : d ≤ maxDepth) (alarm : Alarm)
    (c : Closure) (e : ScopeRef) (args : List Value) {w : World} (hw : w.depth = d) :
    (invoke c e args k w).Counts d
      (countedInvoke alarm d deep c e args { k with inner := m } w) := by
  unfold invoke countedInvoke
  cases c.node with
  | none =>
    refine Composed.counts hd (t := {}) ?_ k m hm w hw
    exact composed_ite (.bind (composed_superConstruct ..) fun _ => composed_pure _)
      (composed_pure _)
  | some n =>
    dsimp only
    split
    · exact ⟨rfl, hw⟩
    · change Course.Counts d ((if maxDepth ≤ w.depth then _ else _ : Action Value) k w)
        ((if maxDepth ≤ d then _ else _ : Action Value) { k with inner := m } w)
      rw [hw]
      split
      · exact ⟨rfl, hw⟩
      · next hlimit =>
        have hlt := Nat.lt_of_not_le hlimit
        refine (body_counts (hdeep hlt) hlt alarm c n e args hw).attempt.bind fun r v hv => ?_
        exact (composed_finishBody (t := {}) fun _ _ => Or.inl trivial).counts
          hd k m hm v hv

end Action
end Stepper.Machine

namespace Stepper.Execution

open Syntax Machine Machine.Action Builtin

variable {alarm : Alarm} {d : Nat} {k : Context} {m deep : Evaluator}

theorem callConsole_counts (hd : d ≤ maxDepth) (kind : ConsoleKind) (args : List Value) :
    (callConsole kind args).Counts d (callConsole kind args) := by
  have htold (f : Heap → Call) : (do tell f; return Value.undefined).Counts d
      (do tell f; return Value.undefined) :=
    (counts_tell hd f).bind fun _ => (composed_pure (t := {}) _).counts hd
  intro c m hm w hw
  change ((if c.wantsText then _ else _ : Action Value) c w).Counts d
    ((if c.wantsText then _ else _ : Action Value) { c with inner := m } w)
  by_cases htext : c.wantsText = true
  · rw [if_pos htext]
    have htexts := composed_collect (K := .level) (t := {}) (fun v => composed_consoleText v) args
    exact Counts.bind (htexts.counts hd) (fun pieces => htold _) c m hm w hw
  · rw [if_neg htext]
    exact Counts.bind ((Composed.room (t := {})).counts hd) (fun room => htold _) c m hm w hw

section

variable (hm : k.inner.Counts d m) (hdeep : d < maxDepth → k.inner.Counts (d + 1) deep)
  (hd : d ≤ maxDepth)

include hm hdeep hd

theorem callValue_counts (f this : Value) (args : List Value) {w : World} (hw : w.depth = d) :
    (callValue f this args k w).Counts d
      (countedCall alarm d deep f this args { k with inner := m } w) := by
  cases f with
  | object r =>
    change (callContent r (w.heap.get r).content this args k w).Counts d
      ((match (w.heap.get r).content with
        | .closure c => enterCall r c this >>= fun e => countedInvoke alarm d deep c e args
        | content => callContent r content this args : Action Value) { k with inner := m } w)
    generalize (w.heap.get r).content = content
    cases content with
    | closure c =>
      change (callClosure r c this args k w).Counts d _
      rw [callClosure_eq]
      have henter := composed_enterCall (K := .level) (t := {}) r (c := c) this
      exact (henter.counts hd k m hm w hw).bind fun e v hv =>
        invoke_counts hm hdeep hd alarm c e args hv
    | native name n =>
      by_cases hconsole : ∃ kind, n = .console kind
      · obtain ⟨kind, rfl⟩ := hconsole
        exact callConsole_counts hd kind args k m hm w hw
      · exact (composed_callNative (u := {}) args this n fun kind hk => hconsole ⟨kind, hk⟩).counts
          hd k m hm w hw
    | _ => exact (composed_notFunction (u := {}) _).counts hd k m hm w hw
  | _ => exact (composed_notFunction (u := {}) _).counts hd k m hm w hw

theorem constructValue_counts (f : Value) (args : List Value) (newTarget : Value) {w : World}
    (hw : w.depth = d) : (constructValue f args newTarget k w).Counts d
      (countedConstruct alarm d deep f args newTarget { k with inner := m } w) := by
  have hrefused (v : Value) : (notConstructor v k w).Counts d
      (notConstructor v { k with inner := m } w) :=
    (composed_notConstructor (t := {}) v).counts hd k m hm w hw
  cases f with
  | object r =>
    change ((match (w.heap.get r).content with
        | .native name n => constructNative name n args newTarget
        | .closure c => constructClosure r c args newTarget
        | _ => notConstructor (.object r) : Action Value) k w).Counts d
      ((match (w.heap.get r).content with
        | .native name n => constructNative name n args newTarget
        | .closure c =>
          if refusesNew c then notConstructor (.object r)
          else enterConstruct r c newTarget >>= fun e =>
            countedInvoke alarm d deep c e args >>= constructed e
        | _ => notConstructor (.object r) : Action Value) { k with inner := m } w)
    generalize (w.heap.get r).content = content
    cases content with
    | closure c =>
      change (constructClosure r c args newTarget k w).Counts d _
      rw [constructClosure_eq]
      dsimp only
      split
      · exact hrefused _
      · have henter := composed_enterConstruct (K := .level) (t := {}) r (c := c) newTarget
        exact (henter.counts hd k m hm w hw).bind fun e v hv =>
          (invoke_counts hm hdeep hd alarm c e args hv).bind fun a u hu =>
            (composed_constructed (t := {}) e a).counts hd k m hm u hu
    | native name n => exact (composed_constructNative (u := {}) ..).counts hd k m hm w hw
    | _ => exact hrefused _
  | _ => exact hrefused _

end

theorem countedIn_counts (hm : k.inner.Counts d m)
    (hdeep : d < maxDepth → k.inner.Counts (d + 1) deep) (hd : d ≤ maxDepth) :
    (evaluatorIn k).Counts d (countedIn alarm d deep { k with inner := m }) where
  eval n e isHead w hw := .at_ hw ((composed_evaluate (t := {}) e Means.hereditary_level
    (Means.expression_level n) trivial isHead).counts hd k m hm w hw) alarm
  exec _ _ _ w hw := .at_ hw ((composed_execute (t := {}) Means.hereditary_level trivial
    trivial).counts hd k m hm w hw) alarm
  bind n v e mode w hw := .at_ hw ((composed_bindPattern (t := {}) e v mode Means.hereditary_level
    (Means.expression_level n) (fun _ _ => trivial) trivial).counts hd k m hm w hw) alarm
  call f this args _ hw := .at_ hw (callValue_counts hm hdeep hd f this args hw) alarm
  construct f args newTarget _ hw :=
    .at_ hw (constructValue_counts hm hdeep hd f args newTarget hw) alarm

/-- By induction on the levels, for any number of bodies around. -/
theorem evaluator_counts (source : String) (wantsText : Bool) (levels : Nat) (hd : d ≤ maxDepth) :
    (evaluator source wantsText levels).Counts d
      (countedEvaluator alarm source wantsText levels d) := by
  induction levels generalizing d with
  | zero =>
    exact ⟨fun _ _ _ _ hw => ⟨rfl, hw⟩, fun _ _ _ _ hw => ⟨rfl, hw⟩, fun _ _ _ _ _ hw => ⟨rfl, hw⟩,
      fun _ _ _ _ hw => ⟨rfl, hw⟩, fun _ _ _ _ hw => ⟨rfl, hw⟩⟩
  | succ levels ih =>
    exact countedIn_counts (k := (contextOver source wantsText levels _))
      (ih hd) (fun hlt => ih hlt) hd

/-- A program and its exceptions go the way of the machine that counts for itself. -/
theorem course_counts (alarm : Alarm) (p : Program) (wantsText : Bool) :
    (course p wantsText).Counts 0 (countedCourse alarm p wantsText) :=
  (composed_program (K := .level) (t := {}) Means.hereditary_level fun _ _ => trivial).counts
    (Nat.zero_le _) _ _ (evaluator_counts p.source wantsText maxLevels (Nat.zero_le _)) initialWorld
    rfl

theorem thrownDetails_counts (alarm : Alarm) (source : String) (wantsText : Bool) (v : Value)
    {w : World} (hw : w.depth = 0) :
    (thrownDetails v (outermostContext source wantsText) w).Counts 0
      (thrownDetails v (countedContext alarm source wantsText) w) :=
  (composed_thrownDetails (t := {}) v).counts (Nat.zero_le _) _ _
    (evaluator_counts source wantsText maxLevels (Nat.zero_le _)) w hw

end Stepper.Execution

/-! ### The limit -/

namespace Stepper.Machine.Action

open Syntax

/-- How a call ends that would go too deep. -/
def tooDeep : Interrupt := .raised .rangeError "Maximum call stack size exceeded"

/-- A function that has a body to run. -/
def HasBody (c : Closure) : Prop := ∃ n, c.node = some n ∧ isGenerator n.kind = false

/-- At the limit nothing of a function is looked at, nor its scope and arguments. -/
theorem invoke_of_limit {c : Closure} (hc : HasBody c) (e : ScopeRef) (args : List Value)
    (k : Context) {w : World} (hw : maxDepth ≤ w.depth) :
    invoke c e args k w = .broke tooDeep w := by
  obtain ⟨n, hnode, hkind⟩ := hc
  unfold invoke
  rw [hnode]
  dsimp only
  rw [hkind, if_neg (by decide)]
  change (if maxDepth ≤ w.depth then _ else _ : Action Value) k w = _
  rw [if_pos hw]
  rfl

/-- A handler is given what was raised in its block as an object. -/
theorem execGuarded_of_raised {n body handler : Node} (hbody : n.child? .body = some body)
    (hhandler : n.child? .handler = some handler) {e : ScopeRef} {k : Context} {w v : World}
    {kind : ErrorKind} {message : Text}
    (h : k.inner.exec body e [] w = .broke (.raised kind message) v) :
    execGuarded n e k w = runHandler handler (errorObject kind message) e k v := by
  unfold execGuarded
  rw [hbody, hhandler]
  change (k.inner.exec body e [] w).attempt.bind _ = _
  rw [h]
  rfl

end Stepper.Machine.Action

namespace Stepper.Execution

open Syntax Machine Machine.Action Builtin

/-- What is called or constructed ends as deep as it began, however it ends under whatever host. -/
structure RestoresDepth (m : Evaluator) : Prop where
  call : ∀ (f this : Value) (args : List Value) (w : World) {σ : Type} (host : Host σ) (s : σ),
    ((m.call f this args w).drive host s).1.world.depth = w.depth
  construct : ∀ (f : Value) (args : List Value) (newTarget : Value) (w : World) {σ : Type}
    (host : Host σ) (s : σ), ((m.construct f args newTarget w).drive host s).1.world.depth = w.depth

theorem evaluator_restoresDepth (source : String) (wantsText : Bool) (levels : Nat) :
    RestoresDepth (evaluator source wantsText levels) where
  call f this args w _ host s :=
    ((evaluator_obeys Course.restores_law source wantsText levels).call f this args w).drive host s
  construct f args newTarget w _ host s :=
    ((evaluator_obeys Course.restores_law source wantsText levels).construct f args newTarget w).drive
      host s

/-- In this state no body is run. A call adds the scope of the function and ends there; what makes
an object puts in place what it begins with and ends there; and a handler is given the error. -/
structure RefusesBodies (k : Context) (w : World) : Prop where
  call : ∀ (r : Ref) (c : Closure) (this : Value) (args : List Value),
    (w.heap.get r).content = .closure c → HasBody c → c.isClassConstructor = false →
    ∃ scopes, callValue (.object r) this args k w = .broke tooDeep { w with scopes }
  construct : ∀ (r : Ref) (c : Closure) (args : List Value) (newTarget : Value),
    (w.heap.get r).content = .closure c → HasBody c → refusesNew c = false →
    constructValue (.object r) args newTarget k w =
      (enterConstruct r c newTarget k w).bind fun _ v => .broke tooDeep v
  handler : ∀ (n body handler : Node) (e : ScopeRef) (v : World), n.child? .body = some body →
    n.child? .handler = some handler → k.inner.exec body e [] w = .broke tooDeep v →
    execGuarded n e k w =
      runHandler handler (errorObject .rangeError "Maximum call stack size exceeded") e k v

theorem refusesBodies_of_limit {k : Context} (hk : k.inner.Obeys Course.Restores) {w : World}
    (hw : maxDepth ≤ w.depth) : RefusesBodies k w where
  call r c this args hr hc hclass := by
    change ∃ scopes, callContent r (w.heap.get r).content this args k w = _
    rw [hr]
    change ∃ scopes, callClosure r c this args k w = _
    rw [callClosure_eq, enterCall, hclass]
    exact ⟨_, invoke_of_limit hc _ args k hw⟩
  construct r c args newTarget hr hc hnew := by
    have hvalue : constructValue (.object r) args newTarget k w =
        constructClosure r c args newTarget k w := by
      change (match (w.heap.get r).content with
        | .native name n => constructNative name n args newTarget
        | .closure c => constructClosure r c args newTarget
        | _ => notConstructor (.object r) : Action Value) k w = _
      rw [hr]
    have hrestores : (enterConstruct r c newTarget k w).Restores w :=
      (composed_enterConstruct (t := {}) r newTarget).obeys Course.restores_law k hk w
    rw [hvalue, constructClosure_eq, hnew]
    refine hrestores.ends.bind_congr fun e v hv => ?_
    change (invoke c e args k v).bind _ = _
    rw [invoke_of_limit hc e args k (hv ▸ hw)]
    rfl
  handler n body handler e v hbody hhandler h := execGuarded_of_raised hbody hhandler h

/-- The depth counts the bodies that are being run. The machine that knows their number from how it
is built, and sounds an alarm wherever the counter has another one, goes the same way, whatever the
alarm does, and so it does where an exception describes itself afterwards. The host is told of no
state past the limit, and the program ends outside of all bodies. What is called or constructed ends
as deep as it began. At the limit a call ends in an error that can be caught, with nothing run. -/
theorem depth_counts_bodies (p : Program) (wantsText : Bool) :
    (∀ alarm, countedCourse alarm p wantsText = course p wantsText ∧
      ∀ v w, w.depth = 0 → thrownDetails v (countedContext alarm p.source wantsText) w =
        thrownDetails v (outermostContext p.source wantsText) w) ∧
    (course p wantsText).Through (·.depth ≤ maxDepth) (·.depth = 0) ∧
    (∀ i w x, w.depth = 0 → details p wantsText i w = some x →
      x.Through (·.depth ≤ maxDepth) (·.depth = 0)) ∧
    (∀ levels, RestoresDepth (evaluator p.source wantsText levels)) ∧
    ∀ k levels, k.inner = evaluator p.source wantsText levels →
      ∀ w, maxDepth ≤ w.depth → RefusesBodies k w := by
  refine ⟨fun alarm => ⟨(course_counts alarm p wantsText).eq, fun v w hw =>
      (thrownDetails_counts alarm p.source wantsText v hw).eq⟩,
    (course_counts (fun _ w => .broke .stopped w) p wantsText).through, fun i w x hw h => ?_,
    evaluator_restoresDepth p.source wantsText, fun k levels hk w hw =>
      refusesBodies_of_limit (hk ▸ evaluator_obeys Course.restores_law ..) hw⟩
  cases i <;> simp only [details, Option.some.injEq, reduceCtorEq] at h <;> subst h
  case raised kind message => exact hw
  case thrown v =>
    exact (thrownDetails_counts (fun _ w => .broke .stopped w) p.source wantsText v hw).through

def bareFunction : Closure :=
  { name := [], node := some { kind := .functionExpression }, scope := ⟨0⟩ }

/-- A state at the limit, with one function. -/
def limitWorld : World := { heap := ⟨#[{ content := .closure bareFunction }]⟩, depth := maxDepth }

theorem limitWorld_refuses :
    (∃ scopes, callValue (.object ⟨0⟩) .undefined [] (outermostContext "" false) limitWorld =
      .broke tooDeep { limitWorld with scopes }) ∧
    (∃ x, details default false (.thrown .null) initialWorld = some x ∧
      x.Through (·.depth ≤ maxDepth) (·.depth = 0)) ∧
    ∀ alarm, thrownDetails .null (countedContext alarm "" false) initialWorld =
      thrownDetails .null (outermostContext "" false) initialWorld := by
  obtain ⟨hcounted, -, hdetails, -, hlimit⟩ := depth_counts_bodies default false
  have hcall := (hlimit (outermostContext "" false) maxLevels rfl limitWorld
    (Nat.le_refl maxDepth)).call
  exact ⟨hcall ⟨0⟩ _ .undefined [] rfl ⟨_, rfl, rfl⟩ rfl,
    ⟨_, rfl, hdetails (.thrown .null) initialWorld _ rfl rfl⟩,
    fun alarm => (hcounted alarm).2 .null initialWorld rfl⟩

end Stepper.Execution
