import Stepper.Proofs.Nesting
import Stepper.Proofs.Transcript

/-!
Programs that fold and show what comes of it: `console.log(a.reduce(Object.entries, …))`. The fold
makes a level of each element, all in the frames of one call; to write the outcome takes three
frames for each. So where the array has too many elements, a host that takes values hears of the
outcome and a host that wants text does not. What a run has come to before its last call can be
computed; how it ends follows from that.
-/
namespace Stepper.Execution

open Syntax Machine Machine.Action Builtin

section

variable {α β : Type} {c : Context} {w w' : World}

theorem done_of_bind {x : Action α} {f : α → Action β} {b : β}
    (h : (x >>= f) c w = .done b w') : ∃ a v, x c w = .done a v ∧ f a c v = .done b w' := by
  change (x c w).bind _ = _ at h
  cases hx : x c w with
  | done a v =>
    rw [hx] at h
    exact ⟨a, v, rfl, h⟩
  | broke i v =>
    rw [hx] at h
    cases h
  | tell q v next =>
    rw [hx] at h
    cases h

theorem each_append_of_done {f : α → Action Unit} {as : List α} (bs : List α)
    (h : each f as c w = .done () w') : each f (as ++ bs) c w = each f bs c w' := by
  induction as generalizing w with
  | nil =>
    cases h
    rfl
  | cons a as ih =>
    rw [each_cons] at h
    obtain ⟨⟨⟩, v, ha, h⟩ := done_of_bind h
    rw [List.cons_append, each_cons]
    exact (bind_of_done ha _).trans (ih h)

end

/-- All that a program does before its last statement. -/
def prelude (root : Node) : Action ScopeRef := do
  let e ← globalScope
  hoistFunction root e
  execAll root.namedChildren.dropLast e
  return e

theorem program_of_prelude {root last : Node} (hlast : root.namedChildren.getLast? = some last)
    {e : ScopeRef} {c : Context} {w w' : World} (h : prelude root c w = .done e w') :
    program root c w = execAll [last] e c w' := by
  obtain ⟨before, hbefore⟩ := List.getLast?_eq_some_iff.mp hlast
  obtain ⟨e', w₁, hscope, h⟩ := done_of_bind h
  obtain ⟨⟨⟩, w₂, hhoist, h⟩ := done_of_bind h
  obtain ⟨⟨⟩, w₃, hall, h⟩ := done_of_bind h
  obtain ⟨rfl, rfl⟩ : e' = e ∧ w₃ = w' := by cases h; exact ⟨rfl, rfl⟩
  rw [hbefore, List.dropLast_concat] at hall
  unfold program
  rw [bind_of_done hscope, bind_of_done hhoist, hbefore]
  exact each_append_of_done [last] hall

/-- A call in the source. -/
structure IsCall (n callee args : Node) : Prop where
  kind : n.kind = .callExpression
  function : n.child? .function = some callee
  arguments : n.child? .arguments = some args
  notSuper : (callee.kind == .superWord) = false
  notTemplate : (args.kind == .templateString) = false

section

variable {n callee args : Node} {e : ScopeRef} {c : Context} {w w₁ w₂ : World}

theorem evalCall_eq (hn : IsCall n callee args) {f : Ref} {this : Value} {vs : List Value}
    (hcallee : evalCallee callee e c w = .done (.object f, this) w₁)
    (hargs : evalArguments (some args) e c w₁ = .done vs w₂)
    (hf : (w₂.heap.get f).isCallable = true) :
    evalCall n e c w = call (.object f) this vs c w₂ := by
  have hcallable : isCallable (.object f) c w₂ = .done true w₂ := congrArg (Course.done · w₂) hf
  unfold evalCall
  rw [hn.function, hn.arguments]
  rw [bind_of_done (rfl : part (some callee) c w = .done callee w)]
  simp only [hn.notSuper, hn.notTemplate, Option.any_some, Value.isNullish, Bool.false_eq_true,
    ↓reduceIte]
  rw [bind_of_done hcallee]
  simp only [Bool.false_and, Bool.false_eq_true, ↓reduceIte]
  rw [bind_of_done hargs, bind_of_done hcallable]
  rfl

/-- How the value of a chain goes on from what a link of it came to. -/
def linked : Except Interrupt Value → World → Course Value
  | .ok v, w => .done v w
  | .error .cutShort, w => .done .undefined w
  | .error i, w => .broke i w

theorem evaluate_call (hn : IsCall n callee args) :
    evaluate n e false c w = (evalCall n e c w).attempt.bind linked := by
  have hlink : evalLink n e = evalCall n e := by
    unfold evalLink
    simp [hn.kind]
  unfold evaluate
  simp only [hn.kind]
  unfold evalChain
  rw [hlink]
  change (evalCall n e c w).attempt.bind _ = _
  congr 1
  funext r w
  cases r with
  | ok v => rfl
  | error i => cases i <;> rfl

end

/-- The context of an evaluation that leaves some levels. -/
def contextIn (source : String) (wantsText : Bool) (levels : Nat) : Context :=
  contextOver source wantsText levels (evaluator source wantsText levels)

section

variable {source : String} {wantsText : Bool} {levels : Nat} {e : ScopeRef} {w w₁ w₂ : World}

theorem call_eq {f : Ref} {name : Text} {g : Native} (hf : (w.heap.get f).content = .native name g)
    (this : Value) (vs : List Value) :
    call (.object f) this vs (contextIn source wantsText (levels + 1)) w =
      callNative g this vs (contextIn source wantsText levels) w := by
  change callValue (.object f) this vs (contextIn source wantsText levels) w = _
  unfold callValue
  simp only
  rw [bind_of_done (rfl : object f (contextIn source wantsText levels) w =
    .done (w.heap.get f) w), hf]
  rfl

/-- What it takes to fold an array by `Object.entries`. -/
structure Foldable (w : World) (f g a r : Ref) (n : Nat) : Prop where
  reduce : ∃ name, (w.heap.get f).content = .native name (.array .reduce)
  entries : ∃ name, (w.heap.get g).content = .native name (.object .entries)
  array : ∃ es, (w.heap.get a).content = .array es ∧ es.size = n
  start : ∃ t, Box w.heap r (.text t)
  there : g.index < w.heap.objects.size ∧ a.index < w.heap.objects.size
  rounds : n < maxRounds
  realm : PlainArrays setting.realm w.heap

theorem Foldable.call {f g a r : Ref} {n : Nat} (h : Foldable w f g a r n) :
    ∃ v w', Wraps w n v w' ∧ call (.object f) (.object a) [.object g, .object r]
      (contextIn source wantsText (levels + 3)) w = .done v w' := by
  obtain ⟨name, hf⟩ := h.reduce
  obtain ⟨name', hg⟩ := h.entries
  obtain ⟨es, ha, rfl⟩ := h.array
  obtain ⟨t, hr⟩ := h.start
  have hisArray : (w.heap.get a).isArray = true := by simp [Object.isArray, ha]
  have helements : (w.heap.get a).elements = es := by simp [Object.elements, ha]
  have hcallable : (w.heap.get g).isCallable = true := by simp [Object.isCallable, hg]
  have hrounds : (List.range es.size).length < maxRounds := by
    rw [List.length_range]
    exact h.rounds
  obtain ⟨v, w', hv, hfold⟩ := reduceOver_entries (c := contextIn source wantsText (levels + 2))
    (d := contextIn source wantsText (levels + 1)) rfl hg h.there.1 ha h.there.2 h.realm hr
    (.primitive rfl) (fun i hi => List.mem_range.mp hi) hrounds
  refine ⟨v, w', by simpa using hv, ?_⟩
  have hread : ∀ s c, object s c w = .done (w.heap.get s) w := fun s c => rfl
  have hlength : ∀ c, lengthOf a c w = .done es.size w := fun c => by
    unfold lengthOf
    rw [bind_of_done (hread a c), helements]
    rfl
  have hcallback : ∀ c, callback (.object g) c w = .done () w := fun c => by
    have hg : isCallable (.object g) c w = .done true w := congrArg (Course.done · w) hcallable
    unfold callback
    rw [bind_of_done hg]
    rfl
  rw [call_eq hf]
  change (thisArray (.object a) "reduce" >>= _) _ w = _
  rw [bind_of_done (thisArray_eq hisArray "reduce"), bind_of_done (hlength _)]
  exact (bind_of_done (hcallback _) _).trans hfold

theorem eval_call {n callee args : Node} (hn : IsCall n callee args) {v : Value}
    (hv : evalCall n e (contextIn source wantsText levels) w = .done v w₁) :
    eval n e (contextIn source wantsText (levels + 1)) w = .done v w₁ := by
  change evaluate n e false (contextIn source wantsText levels) w = _
  rw [evaluate_call hn, hv]
  rfl

theorem evalArguments_call {n callee args group : Node} (hgroup : group.namedChildren = [n])
    (hn : IsCall n callee args) {v : Value}
    (hv : evalCall n e (contextIn source wantsText levels) w = .done v w₁) :
    evalArguments (some group) e (contextIn source wantsText (levels + 1)) w = .done [v] w₁ := by
  unfold evalArguments
  simp only [hgroup]
  have hvalues : (do return [← eval n e] : Action (List Value))
      (contextIn source wantsText (levels + 1)) w = .done [v] w₁ := bind_of_done (eval_call hn hv) _
  refine bind_of_done (collect_singleton (b := [v]) ?_) _
  simp only [hn.kind]
  exact hvalues

/-- A last statement that is a call. -/
theorem execAll_call {last n callee args : Node} (hkind : last.kind = .expressionStatement)
    (hlast : last.namedChildren.head? = some n) (hn : IsCall n callee args) :
    execAll [last] e (contextIn source wantsText (levels + 2)) w =
      ((evalCall n e (contextIn source wantsText levels) w).attempt.bind linked).bind
        fun _ w => .done () w := by
  have hexec : exec last e (contextIn source wantsText (levels + 2)) w =
      ((evalCall n e (contextIn source wantsText levels) w).attempt.bind linked).bind
        fun _ w => .done () w := by
    change execute last e [] (contextIn source wantsText (levels + 1)) w = _
    unfold execute
    simp only [hkind, hlast]
    rw [← evaluate_call hn]
    rfl
  unfold execAll
  rw [each_cons]
  change (exec last e (contextIn source wantsText (levels + 2)) w).bind _ = _
  rw [hexec]
  exact Course.bind_done_self _

end

def calleeOf (n : Node) : Node := (n.child? .function).getD default

def argumentsOf (n : Node) : Node := (n.child? .arguments).getD default

def isCall (n : Node) : Bool :=
  n.kind == .callExpression && (n.child? .function).isSome && (n.child? .arguments).isSome &&
    !((calleeOf n).kind == .superWord) && !((argumentsOf n).kind == .templateString)

theorem isCall_spec {n : Node} (h : isCall n = true) : IsCall n (calleeOf n) (argumentsOf n) := by
  simp only [isCall, Bool.and_eq_true, beq_iff_eq, Bool.not_eq_true'] at h
  obtain ⟨⟨⟨⟨hkind, hfunction⟩, harguments⟩, hsuper⟩, htemplate⟩ := h
  refine ⟨hkind, ?_, ?_, hsuper, htemplate⟩
  · obtain ⟨callee, hcallee⟩ := Option.isSome_iff_exists.mp hfunction
    simp [calleeOf, hcallee]
  · obtain ⟨args, hargs⟩ := Option.isSome_iff_exists.mp harguments
    simp [argumentsOf, hargs]

/-- The last statement of a program. -/
def lastOf (p : Program) : Node := p.root.namedChildren.getLast?.getD default

/-- What the last statement shows, `console.log(…)`. -/
def shownBy (p : Program) : Node := (lastOf p).namedChildren.head?.getD default

/-- What is shown. -/
def givenBy (p : Program) : Node := (argumentsOf (shownBy p)).namedChildren.head?.getD default

/-- Whether a program ends with a call whose argument is a call. -/
def endsWithCalls (p : Program) : Bool :=
  p.root.namedChildren.getLast?.isSome && (lastOf p).kind == .expressionStatement &&
    (lastOf p).namedChildren.head?.isSome && isCall (shownBy p) &&
    (argumentsOf (shownBy p)).namedChildren.length == 1 && isCall (givenBy p)

theorem eq_some_of_isSome {α : Type} [Inhabited α] {x : Option α} (h : x.isSome = true) :
    x = some (x.getD default) := by
  cases x with
  | none => cases h
  | some a => rfl

theorem endsWithCalls_spec {p : Program} (h : endsWithCalls p = true) :
    p.root.namedChildren.getLast? = some (lastOf p) ∧ (lastOf p).kind = .expressionStatement ∧
      (lastOf p).namedChildren.head? = some (shownBy p) ∧
      IsCall (shownBy p) (calleeOf (shownBy p)) (argumentsOf (shownBy p)) ∧
      (argumentsOf (shownBy p)).namedChildren = [givenBy p] ∧
      IsCall (givenBy p) (calleeOf (givenBy p)) (argumentsOf (givenBy p)) := by
  simp only [endsWithCalls, Bool.and_eq_true, beq_iff_eq] at h
  obtain ⟨⟨⟨⟨⟨hlast, hkind⟩, hshown⟩, houter⟩, hone⟩, hinner⟩ := h
  obtain ⟨n, hn⟩ := List.length_eq_one_iff.mp hone
  refine ⟨eq_some_of_isSome hlast, hkind, eq_some_of_isSome hshown, isCall_spec houter, ?_,
    isCall_spec hinner⟩
  simp [givenBy, hn]

/-- A run of such a program that has come to its last call: the functions called, the array, and
what the fold starts with. -/
structure Reaches (p : Program) (wantsText : Bool) (e : ScopeRef) (l f g a r : Ref) (w : World) :
    Prop where
  run : ∃ this w₀ w₁ w₂,
    prelude p.root (outermostContext p.source wantsText) initialWorld = .done e w₀ ∧
    evalCallee (calleeOf (shownBy p)) e (contextIn p.source wantsText (maxLevels - 2)) w₀ =
      .done (.object l, this) w₁ ∧
    evalCallee (calleeOf (givenBy p)) e (contextIn p.source wantsText (maxLevels - 3)) w₁ =
      .done (.object f, .object a) w₂ ∧
    evalArguments (some (argumentsOf (givenBy p))) e
      (contextIn p.source wantsText (maxLevels - 3)) w₂ = .done [.object g, .object r] w

variable {p : Program} {wantsText : Bool} {e : ScopeRef} {l f g a r : Ref} {w : World} {n : Nat}

/-- The course of such a program: it folds, and shows what has come of that. -/
theorem Reaches.course (h : Reaches p wantsText e l f g a r w) (hp : endsWithCalls p = true)
    (hfold : Foldable w f g a r n) {name : Text}
    (hl : (w.heap.get l).content = .native name (.console .log))
    (hthere : l.index < w.heap.objects.size) :
    ∃ v w', Wraps w n v w' ∧ course p wantsText =
      ((callConsole .log [v] (contextIn p.source wantsText (maxLevels - 3)) w').attempt.bind
        linked).bind fun _ w => .done () w := by
  obtain ⟨this, w₀, w₁, w₂, hprelude, hlog, hcallee, hargs⟩ := h.run
  obtain ⟨hlast, hkind, hshown, houter, hone, hinner⟩ := endsWithCalls_spec hp
  obtain ⟨v, w', hv, hcall⟩ : ∃ v w', Wraps w n v w' ∧
      call (.object f) (.object a) [.object g, .object r]
        (contextIn p.source wantsText (maxLevels - 6 + 3)) w = .done v w' := hfold.call
  have hcallable : (w.heap.get f).isCallable = true := by
    obtain ⟨name, hf⟩ := hfold.reduce
    simp [Object.isCallable, hf]
  have hgiven : evalCall (givenBy p) e (contextIn p.source wantsText (maxLevels - 3)) w₁ =
      .done v w' := by
    rw [evalCall_eq hinner hcallee hargs hcallable]
    exact hcall
  have hl' : (w'.heap.get l).content = .native name (.console .log) := by
    rw [hv.heap.get l hthere, hl]
  have hshows : evalCall (shownBy p) e (contextIn p.source wantsText (maxLevels - 2)) w₀ =
      callConsole .log [v] (contextIn p.source wantsText (maxLevels - 3)) w' := by
    have hshow : call (.object l) this [v] (contextIn p.source wantsText (maxLevels - 3 + 1)) w' =
        callNative (.console .log) this [v] (contextIn p.source wantsText (maxLevels - 3)) w' :=
      call_eq hl' this [v]
    rw [evalCall_eq houter hlog (evalArguments_call hone hinner hgiven)
      (by simp [Object.isCallable, hl'])]
    exact hshow
  refine ⟨v, w', hv, ?_⟩
  rw [← hshows]
  exact (program_of_prelude hlast hprelude).trans (execAll_call hkind hshown houter)

end Stepper.Execution
