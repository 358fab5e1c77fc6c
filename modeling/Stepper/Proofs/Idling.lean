import Stepper.Instrument.Marks
import Stepper.Proofs.Limit

/-!
Loops that pass no step. The engine has a run in its hands where it is told of a step, and nowhere
else. A statement is idle if it is empty, or a block of idle statements. The plan marks nothing in
an idle statement, and to run it tells the host nothing. So a loop with an idle body and a head that
calls nothing tells of no step, for as many rounds as it makes: nothing that is asked of the engine
meanwhile stops it, and no limit counts its rounds.
-/
namespace Stepper.Syntax.Node

/-- A word or a mark, or a comment. -/
def isTrivia (n : Node) : Bool :=
  n.children.isEmpty && match n.kind with
    | .token _ => !n.named
    | k => k.isComment

mutual
/-- An empty statement, or a block of idle statements. -/
def isIdle (n : Node) : Bool :=
  match n with
  | ⟨kind, _, _, _, _, _, _, _, _, _, cs⟩ =>
    (kind == .emptyStatement || kind == .statementBlock) && areIdle cs
termination_by structural n

def areIdle (ns : List Node) : Bool :=
  match ns with
  | [] => true
  | n :: ns => (n.isTrivia || n.isIdle) && areIdle ns
termination_by structural ns
end

/-- Expressions that call nothing, whatever they stand for. -/
def stillWords : List Kind :=
  [.trueWord, .falseWord, .nullWord, .undefinedWord, .identifier, .number]

def stillKinds : List Kind := stillWords ++ [.parenthesizedExpression, .sequenceExpression]

mutual
/-- A literal word, a name or a number, or such in parentheses or in a row. -/
def isStill (n : Node) : Bool :=
  match n with
  | ⟨kind, _, _, _, _, _, _, _, _, _, cs⟩ =>
    stillWords.contains kind ||
      (kind == .parenthesizedExpression || kind == .sequenceExpression) && areStill cs
termination_by structural n

def areStill (ns : List Node) : Bool :=
  match ns with
  | [] => true
  | n :: ns => (n.isTrivia || n.isStill) && areStill ns
termination_by structural ns
end

/-- What may stand between two semicolons in the head of a loop. -/
def isStillClause (n : Node) : Bool := n.kind == .emptyStatement || n.isStill

/-- A loop with an idle body, and with nothing in its head but what is still. -/
inductive IdleLoop (n : Node) : Prop where
  | tested (hkind : n.kind = .whileStatement ∨ n.kind = .doStatement)
      (hbody : ∀ m ∈ n.child? .body, m.isIdle = true)
      (hcondition : ∀ m ∈ n.child? .condition, m.isStill = true)
  | counted (hkind : n.kind = .forStatement)
      (hbody : ∀ m ∈ n.child? .body, m.isIdle = true)
      (hinitializer : ∀ m ∈ n.child? .initializer, m.isStillClause = true)
      (hcondition : ∀ m ∈ n.child? .condition, m.isStillClause = true)
      (hincrement : ∀ m ∈ n.child? .increment, m.isStill = true)

-- while (true);
example : IdleLoop
    { kind := .whileStatement
      children := [
        { kind := .parenthesizedExpression, field := some .condition
          children := [{ kind := .trueWord }] },
        { kind := .emptyStatement, field := some .body }] } :=
  .tested (.inl rfl) (by decide) (by decide)

variable {n c : Node} {ns : List Node}

theorem size_le_sizes (hc : c ∈ ns) : c.size ≤ sizes ns := by
  induction ns with
  | nil => cases hc
  | cons n ns ih =>
    rw [sizes_cons]
    obtain rfl | hmem := List.mem_cons.mp hc
    · omega
    · have := ih hmem
      omega

theorem size_lt_of_mem_children (hc : c ∈ n.children) : c.size < n.size := by
  have := size_le_sizes hc
  rw [size_eq n]
  omega

/-- What holds of a node whenever it holds of its children holds of every node. -/
@[elab_as_elim]
theorem induction {P : Node → Prop} (h : ∀ n, (∀ c ∈ n.children, P c) → P n) (n : Node) : P n :=
  h n fun c hc =>
    have := size_lt_of_mem_children hc
    induction h c
termination_by n.size

theorem areIdle_iff : areIdle ns = true ↔ ∀ c ∈ ns, c.isTrivia = true ∨ c.isIdle = true := by
  induction ns with
  | nil => simp [areIdle]
  | cons n ns ih => simp [areIdle, ih]

theorem areStill_iff : areStill ns = true ↔ ∀ c ∈ ns, c.isTrivia = true ∨ c.isStill = true := by
  induction ns with
  | nil => simp [areStill]
  | cons n ns ih => simp [areStill, ih]

/-- An expression is still if it is a word or parentheses or a sequence of such. -/
theorem isStill_iff : n.isStill = true ↔
    n.kind ∈ stillWords ∨
      (n.kind = .parenthesizedExpression ∨ n.kind = .sequenceExpression) ∧
        ∀ c ∈ n.children, c.isTrivia = true ∨ c.isStill = true := by
  cases n
  simp [isStill, areStill_iff]

/-- What stands between the parts of a node is none of them. -/
theorem not_mem_namedChildren_of_isTrivia (hc : c.isTrivia = true) : c ∉ n.namedChildren := by
  intro hmem
  simp only [namedChildren, List.mem_filter, Bool.and_eq_true, Bool.not_eq_true'] at hmem
  simp only [isTrivia, Bool.and_eq_true] at hc
  cases hk : c.kind <;> simp_all

/-- A statement is idle if it is empty or a block of such. -/
theorem isIdle_iff : n.isIdle = true ↔ (n.kind = .emptyStatement ∨ n.kind = .statementBlock) ∧
    ∀ c ∈ n.children, c.isTrivia = true ∨ c.isIdle = true := by
  cases n
  simp [isIdle, areIdle_iff]

theorem of_mem_namedChildren {P : Node → Prop} (h : ∀ c ∈ n.children, c.isTrivia = true ∨ P c)
    (hc : c ∈ n.namedChildren) : P c :=
  (h c (List.mem_filter.mp hc).1).resolve_left fun h => not_mem_namedChildren_of_isTrivia h hc

theorem isStillClause_iff :
    n.isStillClause = true ↔ n.kind = .emptyStatement ∨ n.isStill = true := by
  simp [isStillClause]

theorem kind_of_isStill (hn : n.isStill = true) : n.kind ∈ stillKinds := by
  obtain hk | ⟨hk | hk, -⟩ := isStill_iff.mp hn
  · exact List.mem_append_left _ hk
  · simp [stillKinds, hk]
  · simp [stillKinds, hk]

/-- A still expression is a clause as it is. -/
theorem unwrapClause_of_isStill (hn : n.isStill = true) : unwrapClause (some n) = some n := by
  have hkind := kind_of_isStill hn
  unfold unwrapClause
  simp only
  split
  · next hk => simp [hk, stillKinds, stillWords] at hkind
  · next hk => simp [hk, stillKinds, stillWords] at hkind
  · next hk => simp [hk, stillKinds, stillWords] at hkind
  · rfl

theorem isStill_of_unwrapClause {clause : Option Node}
    (h : ∀ m ∈ clause, m.isStillClause = true) (hn : unwrapClause clause = some n) :
    n.isStill = true := by
  cases clause with
  | none => cases hn
  | some m =>
    obtain hk | hstill := isStillClause_iff.mp (h m rfl)
    · simp [unwrapClause, hk] at hn
    · rw [unwrapClause_of_isStill hstill] at hn
      exact Option.some.inj hn ▸ hstill

end Stepper.Syntax.Node

namespace Stepper.Instrument

open Syntax

/-- Nodes of which the plan takes no notice. -/
def isPlain (n : Node) : Bool :=
  !isStepKind n.kind && !n.kind.isLoop && !(n.kind.isFunction && (n.child? .body).isSome) &&
    !(n.kind == .returnStatement)

/-- A plain node is not marked. -/
theorem markNode_of_isPlain (source : String) (ancestors : List Node) (inFunction : Bool) {n : Node}
    (hn : isPlain n = true) (p : Plan) :
    markNode source ancestors inFunction n p = (p, inFunction) := by
  simp only [isPlain, Bool.and_eq_true, Bool.not_eq_true'] at hn
  simp [markNode, hn]

theorem isPlain_of_isTrivia {n : Node} (hn : n.isTrivia = true) : isPlain n = true := by
  simp only [Node.isTrivia, Bool.and_eq_true, List.isEmpty_iff] at hn
  have hbody : n.child? .body = none := by
    rw [Node.child?, hn.1]
    rfl
  cases hk : n.kind <;>
    simp_all [Kind.isComment, isPlain, isStepKind, Kind.isLoop, Kind.isFunction]

theorem planNode_eq (source : String) (ancestors : List Node) (inFunction : Bool) (n : Node)
    (p : Plan) : planNode source ancestors inFunction n p =
      planNodes source (n :: ancestors) (markNode source ancestors inFunction n p).2 n.children
        (markNode source ancestors inFunction n p).1 := by
  cases n
  rfl

/-- Nodes that add nothing one by one add nothing together. -/
theorem planNodes_of_forall {source : String} {ancestors : List Node} {inFunction : Bool}
    {ns : List Node} {p : Plan} (h : ∀ n ∈ ns, planNode source ancestors inFunction n p = p) :
    planNodes source ancestors inFunction ns p = p := by
  induction ns with
  | nil => rfl
  | cons n ns ih =>
    rw [planNodes, h n (by simp)]
    exact ih fun m hm => h m (by simp [hm])

/-- A comment or a token adds nothing. -/
theorem planNode_of_isTrivia (source : String) (ancestors : List Node) (inFunction : Bool) {n : Node}
    (hn : n.isTrivia = true) (p : Plan) : planNode source ancestors inFunction n p = p := by
  have hchildren : n.children = [] := by
    simp only [Node.isTrivia, Bool.and_eq_true, List.isEmpty_iff] at hn
    exact hn.1
  rw [planNode_eq, markNode_of_isPlain source ancestors inFunction (isPlain_of_isTrivia hn),
    hchildren]
  rfl

/-- The plan marks nothing in an idle statement. -/
theorem planNode_of_isIdle (source : String) (ancestors : List Node) (inFunction : Bool) {n : Node}
    (hn : n.isIdle = true) (p : Plan) : planNode source ancestors inFunction n p = p := by
  induction n using Node.induction generalizing ancestors with
  | h n ih =>
    obtain ⟨hkind, hchildren⟩ := n.isIdle_iff.mp hn
    have hplain : isPlain n = true := by
      obtain hk | hk := hkind <;> rw [isPlain, hk] <;> rfl
    rw [planNode_eq, markNode_of_isPlain source ancestors inFunction hplain]
    refine planNodes_of_forall fun c hc => ?_
    obtain htrivia | hidle := hchildren c hc
    · exact planNode_of_isTrivia source _ inFunction htrivia p
    · exact ih c hc _ hidle

end Stepper.Instrument

namespace Stepper.Machine

open Syntax

variable {α β : Type}

def Call.IsStep : Call → Prop
  | .step _ _ => True
  | _ => False

namespace Course

/-- Tells of no step, and stops nowhere but where the host says so. -/
def Ungated : Course α → Prop
  | .done _ _ => True
  | .broke i _ => i ≠ .stopped
  | .tell c _ next => ¬ c.IsStep ∧ ∀ r, r ≠ .stop → (next r).Ungated

theorem Ungated.bind {x : Course α} {f : α → World → Course β} (hx : x.Ungated)
    (hf : ∀ a w, (f a w).Ungated) : (x.bind f).Ungated := by
  induction x with
  | done a w => exact hf a w
  | broke i w => exact hx
  | tell c w next ih => exact ⟨hx.1, fun r hr => ih r (hx.2 r hr)⟩

/-- What is caught may be anything but a stop. -/
theorem Ungated.handle {x : Course α} {f : Except Interrupt α → World → Course β} (hx : x.Ungated)
    (hf : ∀ r, r ≠ .error .stopped → ∀ w, (f r w).Ungated) : (x.attempt.bind f).Ungated := by
  induction x with
  | done a w => exact hf (.ok a) (by simp) w
  | broke i w => exact hf (.error i) (fun h => hx (Except.error.inj h)) w
  | tell c w next ih => exact ⟨hx.1, fun r hr => ih r (hx.2 r hr)⟩

end Course

namespace Action

/-- In a context, an action tells of no step. -/
def Ungated (c : Context) (x : Action α) : Prop := ∀ w, (x c w).Ungated

variable {c : Context} {x y : Action α}

theorem Ungated.bind {f : α → Action β} (hx : x.Ungated c) (hf : ∀ a, (f a).Ungated c) :
    (x >>= f).Ungated c := fun w => (hx w).bind fun a => hf a

theorem ungated_pure (a : α) : (pure a : Action α).Ungated c := fun _ => trivial

/-- An action may be cut short by anything but a stop. -/
theorem ungated_interrupt {i : Interrupt} (hi : i ≠ .stopped) :
    (interrupt i : Action α).Ungated c := fun _ => hi

theorem ungated_ite {p : Prop} [Decidable p] (hx : x.Ungated c) (hy : y.Ungated c) :
    (if p then x else y).Ungated c := by
  split
  · exact hx
  · exact hy

theorem ungated_part_bind {p : Option Node} {f : Node → Action α}
    (hf : ∀ m, p = some m → (f m).Ungated c) : (part p >>= f).Ungated c := by
  cases p with
  | none => exact fun w => (nofun : Interrupt.fault .wrongKind ≠ .stopped)
  | some m => exact hf m rfl

theorem ungated_each {f : α → Action Unit} {as : List α} (h : ∀ a ∈ as, (f a).Ungated c) :
    Action.Ungated c (each f as) := by
  induction as with
  | nil => exact ungated_pure ()
  | cons a as ih =>
    rw [each_cons]
    exact .bind (h a (by simp)) fun _ => ih fun b hb => h b (by simp [hb])

/-- A loop tells of no step if none of its rounds does. -/
theorem ungated_loop {body : α → Action (α ⊕ β)} (h : ∀ a, (body a).Ungated c) (fuel : Nat) (a : α) :
    Action.Ungated c (loop body fuel a) := by
  induction fuel generalizing a with
  | zero => exact ungated_interrupt (by simp)
  | succ fuel ih =>
    rw [loop_succ]
    refine .bind (h a) fun x => ?_
    cases x with
    | inl a => exact ih a
    | inr b => exact ungated_pure b

variable {n : Node} {e : ScopeRef} {labels : List String}

/-- An idle body has no gate, whatever jumps it catches. -/
theorem ungated_execBody (hbody : (exec n e).Ungated c) : (execBody n e labels).Ungated c := by
  refine fun w => (hbody w).handle fun r hr w => ?_
  rcases r with i | u
  · cases i with
    | left label => exact ungated_ite (ungated_pure false) (ungated_interrupt (by simp)) w
    | continued label => exact ungated_ite (ungated_pure true) (ungated_interrupt (by simp)) w
    | _ => exact ungated_interrupt (fun h => hr (congrArg Except.error h)) w
  · exact ungated_pure true w

end Action

/-- What is still or idle is evaluated without a step. -/
structure Evaluator.Idles (m : Evaluator) : Prop where
  eval : ∀ n : Node, n.isStill = true → ∀ e isHead w, (m.eval n e isHead w).Ungated
  exec : ∀ n : Node, n.isIdle = true → ∀ e labels w, (m.exec n e labels w).Ungated
  loop : ∀ n : Node, n.IdleLoop → ∀ e labels w, (m.exec n e labels w).Ungated

namespace Action

variable {c : Context} (hc : c.inner.Idles) {n : Node} (e : ScopeRef) (labels : List String)

include hc

/-- Still expressions have no gate by the evaluator of the context. -/
theorem ungated_eval (hn : n.isStill = true) : (eval n e).Ungated c := hc.eval n hn e false

theorem ungated_exec (hn : n.isIdle = true) : (exec n e).Ungated c := hc.exec n hn e []

theorem ungated_evalSequence {ns : List Node} (hns : ∀ m ∈ ns, m.isStill = true) (v : Value) :
    (evalSequence e ns v).Ungated c := by
  induction ns generalizing v with
  | nil => exact ungated_pure v
  | cons m ns ih =>
    exact .bind (ungated_eval hc e (hns m (by simp))) (ih fun k hk => hns k (by simp [hk]))

omit hc in
theorem ungated_numberText (n : Node) : (numberText n).Ungated c := by
  refine .bind (fun _ => trivial) fun t => ?_
  cases numberLiteral (Text.ofString t) with
  | ok x => exact ungated_pure x
  | error f => exact ungated_interrupt nofun

omit hc in
theorem ungated_evalIdentifier (n : Node) : (evalIdentifier n e).Ungated c := by
  refine .bind (fun _ => trivial) fun name => .bind (fun _ => trivial) fun scopes =>
    ungated_ite (ungated_pure _) fun w => ?_
  unfold lookup
  cases w.scopes.read e name with
  | ok v => trivial
  | error x => exact nofun

/-- Every still expression has no gate, one lemma for each kind. -/
theorem ungated_evaluate_of_isStill (hn : n.isStill = true) (isHead : Bool) :
    (evaluate n e isHead).Ungated c := by
  unfold evaluate
  obtain hword | ⟨hkind, hchildren⟩ := n.isStill_iff.mp hn
  · simp only [Node.stillWords, List.mem_cons, List.not_mem_nil, or_false] at hword
    rcases hword with hk | hk | hk | hk | hk | hk <;> simp only [hk]
    · exact ungated_pure _
    · exact ungated_pure _
    · exact ungated_pure _
    · exact ungated_pure _
    · exact ungated_evalIdentifier e n
    · exact .bind (ungated_numberText n) fun _ => ungated_pure _
  · have hinside : ∀ m ∈ n.namedChildren, m.isStill = true :=
      fun m hm => Node.of_mem_namedChildren hchildren hm
    obtain hk | hk := hkind <;> simp only [hk]
    · exact ungated_part_bind fun m hm => ungated_eval hc e (hinside m (List.mem_of_head? hm))
    · exact ungated_evalSequence hc e hinside _

/-- An idle statement makes a scope or nothing. -/
theorem ungated_execute_of_isIdle (hn : n.isIdle = true) : (execute n e labels).Ungated c := by
  have hinside : ∀ m ∈ n.namedChildren, m.isIdle = true :=
    fun m hm => Node.of_mem_namedChildren (n.isIdle_iff.mp hn).2 hm
  unfold execute
  obtain hkind | hkind := (n.isIdle_iff.mp hn).1
  · simp only [hkind]
    exact ungated_pure ()
  · simp only [hkind]
    unfold execBlock
    refine .bind (fun _ => trivial) fun inside => .bind ?_ fun _ =>
      ungated_each fun m hm => ungated_exec hc inside (hinside m hm)
    unfold hoistBlock
    refine .bind (fun _ => trivial) fun source => ungated_each fun m hm => ?_
    obtain hkind | hkind := (m.isIdle_iff.mp (hinside m hm)).1
    · simp only [hkind]
      exact ungated_pure ()
    · simp only [hkind]
      exact ungated_pure ()

/-- A loop has no gate if its body and its condition have none. -/
theorem ungated_execWhile (hbody : ∀ m ∈ n.child? .body, m.isIdle = true)
    (hcondition : ∀ m ∈ n.child? .condition, m.isStill = true) :
    (execWhile n e labels).Ungated c := by
  refine ungated_part_bind fun condition hcond => ungated_part_bind fun body hb =>
    ungated_loop (fun _ => ?_) maxRounds ()
  refine .bind (ungated_eval hc e (hcondition condition hcond)) fun test =>
    ungated_ite (ungated_pure _) ?_
  exact .bind (ungated_execBody (ungated_exec hc e (hbody body hb))) fun _ =>
    ungated_ite (ungated_pure _) (ungated_pure _)

theorem ungated_execDo (hbody : ∀ m ∈ n.child? .body, m.isIdle = true)
    (hcondition : ∀ m ∈ n.child? .condition, m.isStill = true) :
    (execDo n e labels).Ungated c := by
  refine ungated_part_bind fun condition hcond => ungated_part_bind fun body hb =>
    ungated_loop (fun _ => ?_) maxRounds ()
  refine .bind (ungated_execBody (ungated_exec hc e (hbody body hb))) fun goesOn =>
    ungated_ite (ungated_pure _) ?_
  exact .bind (ungated_eval hc e (hcondition condition hcond)) fun _ =>
    ungated_ite (ungated_pure _) (ungated_pure _)

omit hc in
theorem ungated_roundScope (from_ parent : ScopeRef) (names : List String) :
    (roundScope from_ parent names).Ungated c :=
  ungated_ite (ungated_pure _) (.bind (fun _ => trivial) fun _ _ => trivial)

/-- The head of a loop has no gate if its clause is still. -/
theorem ungated_execForHead {initializer : Option Node}
    (h : ∀ m ∈ initializer, m.isStillClause = true) : (execForHead initializer e).Ungated c := by
  cases initializer with
  | none => exact ungated_pure _
  | some i =>
    have hdeclares : i.kind.isDeclaration = false := by
      obtain hk | hstill := Node.isStillClause_iff.mp (h i rfl)
      · rw [hk]
        rfl
      · have hplain : ∀ k ∈ Node.stillKinds, k.isDeclaration = false := by decide
        exact hplain _ (Node.kind_of_isStill hstill)
    unfold execForHead
    simp only [hdeclares]
    cases hx : Node.unwrapClause (some i) with
    | none => exact ungated_pure _
    | some x =>
      exact .bind (ungated_eval hc e (Node.isStill_of_unwrapClause h hx)) fun _ => ungated_pure _

/-- No round of such a loop has a gate. -/
theorem ungated_execFor (hbody : ∀ m ∈ n.child? .body, m.isIdle = true)
    (hinitializer : ∀ m ∈ n.child? .initializer, m.isStillClause = true)
    (hcondition : ∀ m ∈ n.child? .condition, m.isStillClause = true)
    (hincrement : ∀ m ∈ n.child? .increment, m.isStill = true) :
    (execFor n e labels).Ungated c := by
  unfold execFor
  extract_lets condition increment
  refine ungated_part_bind fun body hb => .bind (fun _ => trivial) fun head =>
    .bind (ungated_execForHead hc head hinitializer) fun names =>
    .bind (ungated_roundScope _ _ _) fun first => ungated_loop (fun round => ?_) maxRounds first
  extract_lets rest
  have hrest (goesOn) : (rest goesOn).Ungated c := by
    refine ungated_ite (ungated_pure _) ?_
    refine .bind (ungated_execBody (ungated_exec hc round (hbody body hb))) fun goesOn =>
      ungated_ite (ungated_pure _) (.bind (ungated_roundScope _ _ _) fun next => ?_)
    cases hi : increment with
    | none => exact ungated_pure _
    | some m => exact .bind (ungated_eval hc next (hincrement m hi)) fun _ => ungated_pure _
  cases hcond : condition with
  | none => exact hrest true
  | some m =>
    exact .bind (ungated_eval hc round (Node.isStill_of_unwrapClause hcondition hcond)) fun _ =>
      hrest _

/-- An idle loop has no gate, of whichever kind it is. -/
theorem ungated_execute_of_idleLoop (hn : n.IdleLoop) : (execute n e labels).Ungated c := by
  unfold execute
  cases hn with
  | tested hkind hbody hcondition =>
    obtain hk | hk := hkind
    · simp only [hk]
      exact ungated_execWhile hc e labels hbody hcondition
    · simp only [hk]
      exact ungated_execDo hc e labels hbody hcondition
  | counted hk hbody hinitializer hcondition hincrement =>
    simp only [hk]
    exact ungated_execFor hc e labels hbody hinitializer hcondition hincrement

end Action
end Stepper.Machine

namespace Stepper.Execution

open Machine Syntax

theorem exhausted_idles : exhausted.Idles where
  eval _ _ _ _ _ := nofun
  exec _ _ _ _ _ := nofun
  loop _ _ _ _ _ := nofun

theorem evaluatorIn_idles {c : Context} (hc : c.inner.Idles) : (evaluatorIn c).Idles where
  eval _ hn e isHead := Action.ungated_evaluate_of_isStill hc e hn isHead
  exec _ hn e labels := Action.ungated_execute_of_isIdle hc e labels hn
  loop _ hn e labels := Action.ungated_execute_of_idleLoop hc e labels hn

/-- Level by level idle code has no gate. -/
theorem evaluator_idles (source : String) (wantsText : Bool) (levels : Nat) :
    (evaluator source wantsText levels).Idles := by
  induction levels with
  | zero => exact exhausted_idles
  | succ levels ih => exact evaluatorIn_idles ih

end Stepper.Execution

namespace Stepper.Engine.Session

open Execution Machine Syntax

/-- A reply to a call that is no step is never a stop. -/
theorem fst_reply_ne_stop (x : Bool × Session) : (reply x).1 ≠ .stop := by
  obtain ⟨b, t⟩ := x
  cases b <;> exact nofun

/-- Only a step can be answered with a stop, and only a step is recorded as one. -/
theorem hear_of_not_step {c : Call} (hc : ¬ c.IsStep) (s : Session) :
    (hear c s).1 ≠ .stop ∧ (hear c s).2.state.record.steps = s.state.record.steps := by
  have hdown (s : Session) : (s.takeDown c).1 ≠ .stop ∧
      (s.takeDown c).2.state.record.steps = s.state.record.steps := by
    unfold takeDown
    cases hf : recording c with
    | ok f => exact ⟨nofun, (keeps_recording hf).steps _⟩
    | error f => exact ⟨nofun, rfl⟩
  rw [← record_meanwhile s]
  unfold hear
  cases c with
  | step id line => exact absurd trivial hc
  | console kind m =>
    cases m with
    | text message =>
      refine ⟨fst_reply_ne_stop _, ?_⟩
      simp only [write, snd_reply, record_deliverBusy]
      rfl
    | values h room vs => exact hdown _
  | _ => exact hdown _

/-- A course without a step is not stopped, and no step is recorded in it. -/
theorem drive_of_ungated {α : Type} {x : Course α} (hx : x.Ungated) (s : Session) :
    (∀ w, (x.drive host s).1 ≠ .broke .stopped w) ∧
      (x.drive host s).2.state.record.steps = s.state.record.steps := by
  induction x generalizing s with
  | done a w => exact ⟨nofun, rfl⟩
  | broke i w => exact ⟨fun v h => hx (Outcome.broke.inj h).1, rfl⟩
  | tell c w next ih =>
    obtain ⟨hreply, hsteps⟩ := hear_of_not_step hx.1 s
    obtain ⟨hstop, hnext⟩ := ih _ (hx.2 _ hreply) (hear c s).2
    exact ⟨hstop, hnext.trans hsteps⟩

/-- Nothing that anyone asks of the engine ends an idle loop, and no limit counts its rounds. -/
theorem not_stopped_in_idleLoop (source : String) (levels : Nat) {n : Node} (hn : n.IdleLoop)
    (e : ScopeRef) (labels : List String) (w : World) (s : Session) :
    let course := (evaluator source host.wantsText levels).exec n e labels w
    (∀ v, (course.drive host s).1 ≠ .broke .stopped v) ∧
      (course.drive host s).2.state.record.steps = s.state.record.steps :=
  drive_of_ungated ((evaluator_idles source host.wantsText levels).loop n hn e labels w) s

end Stepper.Engine.Session
