import Stepper.Proofs.Declaring

/-!
Statements that shelter what is declared in them. A block, a `switch`, a `for` and each round of a
loop over items with a `let` or `const` have scopes of their own; branches, the bodies of other
loops and labeled and guarded statements run in the scope of the statement around them. So a
statement declares a name where it is run itself only if it, or what it runs in its place, is a
declaration by `let`, `const` or `class`. Every other one leaves the names there as assignments
leave them.
-/
namespace Stepper.Syntax.Node

variable {source : String} {n : Node}

/-- The statements that a statement runs in its own scope. -/
def inPlace (n : Node) : List Node :=
  match n.kind with
  | .ifStatement =>
    (n.child? .consequence).toList ++ (n.child? .alternative).toList.flatMap namedChildren
  | .whileStatement | .doStatement | .forInStatement | .labeledStatement => (n.child? .body).toList
  | .tryStatement =>
    (n.child? .body).toList ++ ((n.child? .finalizer).bind (·.child? .body)).toList
  | _ => []

/-- Neither the statement nor what it runs in its place is a declaration by `let`, `const` or
`class`. -/
inductive Sheltered (source : String) : Node → Prop
  | intro {n : Node} (hword : n.kind.isDeclaration = true → n.declarationWord source = "var")
    (hclass : n.kind ≠ .classDeclaration) (h : ∀ m ∈ n.inPlace, Sheltered source m) :
    Sheltered source n

end Stepper.Syntax.Node

namespace Stepper.Machine

open Syntax

variable {α β : Type} {source : String} {S : ScopeRef → Prop} {t : Targets}

/-- An evaluator that shelters what is declared in sheltered statements, wherever they are run. -/
structure Evaluator.Shelters (source : String) (S : ScopeRef → Prop) (m : Evaluator) : Prop
    extends m.Spares S where
  execSheltered : ∀ n e labels w, n.Sheltered source → w.scopes.Has S →
    (m.exec n e labels w).Spares S w

namespace Action

/-- An action that declares nothing in these scopes, among evaluators that shelter. -/
def Shelters (source : String) (S : ScopeRef → Prop) (x : Action α) : Prop :=
  ∀ c : Context, c.source = source → c.inner.Shelters source S → ∀ w : World, w.scopes.Has S →
    (x c w).Spares S w

/-- What is done in turn shelters if each part does. -/
theorem Shelters.bind {x : Action α} {f : α → Action β} (hx : x.Shelters source S)
    (hf : ∀ a, (f a).Shelters source S) : (x >>= f).Shelters source S :=
  fun c hc hm w hS => (hx c hc hm w hS).bind hS fun a => hf a c hc hm

/-- What is composed without a declaration in the sheltered scopes shelters. -/
theorem Composed.shelters {x : Action α} (hx : x.Composed (.sparing S) t) : x.Shelters source S :=
  fun c _ hm => hx.spares c hm.toSpares

theorem shelters_pure (a : α) : (pure a : Action α).Shelters source S :=
  (composed_pure (t := {}) a).shelters

theorem shelters_interrupt (i : Interrupt) : (interrupt i : Action α).Shelters source S :=
  fun _ _ _ w _ => .refl _ w.scopes

theorem shelters_ite {p : Prop} [Decidable p] {x y : Action α} (hx : x.Shelters source S)
    (hy : y.Shelters source S) : (if p then x else y).Shelters source S := by
  split
  · exact hx
  · exact hy

/-- A part is taken from the tree before anything is done with it. -/
theorem shelters_part_bind {o : Option Node} {f : Node → Action α}
    (hf : ∀ m, o = some m → (f m).Shelters source S) : (part o >>= f).Shelters source S := by
  cases o with
  | none => exact shelters_interrupt _
  | some m => exact hf m rfl

theorem shelters_source_bind {f : String → Action α} (hf : (f source).Shelters source S) :
    (Action.source >>= f).Shelters source S := by
  rintro c rfl
  exact hf c rfl

/-- What is caught may be followed by what shelters. -/
theorem shelters_attempt_bind {x : Action α} {f : Except Interrupt α → Action β}
    (hx : x.Shelters source S) (hf : ∀ r, (f r).Shelters source S) :
    (attempt x >>= f).Shelters source S :=
  fun c hc hm w hS => (hx c hc hm w hS).attempt.bind hS fun r => hf r c hc hm

/-- A loop shelters if each round does. -/
theorem shelters_repeating {body : α → Action (α ⊕ β)} (h : ∀ a, (body a).Shelters source S)
    (a : α) : (repeating a body).Shelters source S := by
  unfold repeating
  generalize maxRounds = fuel
  induction fuel generalizing a with
  | zero => exact shelters_interrupt _
  | succ fuel ih =>
    rw [loop_succ]
    refine (h a).bind fun x => ?_
    cases x with
    | inl a => exact ih a
    | inr b => exact shelters_pure b

theorem shelters_each {f : α → Action Unit} {as : List α}
    (h : ∀ a ∈ as, (f a).Shelters source S) : Shelters source S (each f as) := by
  induction as with
  | nil => exact shelters_pure ()
  | cons a as ih =>
    rw [each_cons]
    exact (h a List.mem_cons_self).bind fun _ => ih fun b hb => h b (List.mem_cons_of_mem a hb)

variable {n body : Node} {e : ScopeRef} {labels : List String}

/-- Nested statements shelter by the evaluator of the context. -/
theorem shelters_exec (hn : n.Sheltered source) : (exec n e).Shelters source S :=
  fun _ _ hm w hS => hm.execSheltered n e [] w hn hS

theorem shelters_execLabeled (hn : n.Sheltered source) :
    (execLabeled n e labels).Shelters source S :=
  fun _ _ hm w hS => hm.execSheltered n e labels w hn hS

/-- Expressions declare nothing in the scope they are evaluated in. -/
theorem shelters_eval (n : Node) (e : ScopeRef) : (eval n e).Shelters source S :=
  (composed_eval (t := {}) e (Means.unbound_sparing.expression n)).shelters

/-- Only `var` may stand where statements are sheltered, and it only assigns. -/
theorem shelters_execDeclaration (hword : n.declarationWord source = "var") :
    (execDeclaration n e).Shelters source S := by
  refine shelters_source_bind ?_
  have hvar : (n.declarationWord source == "var") = true := by simp [hword]
  simp only [hvar]
  refine shelters_each fun d _ =>
    shelters_ite (shelters_part_bind fun target _ => ?_) (shelters_pure ())
  have hbind (v : Value) : (bindTarget target v e .var).Composed (.sparing S) {} :=
    composed_bindTarget e (Means.unbound_sparing.expression target) v nofun
  cases d.child? .value with
  | none => exact shelters_pure ()
  | some value =>
    have hvalue (hint : Text) :
        (do bindTarget target (← evalNamed value e hint) e .var).Composed (.sparing S) {} :=
      .bind (composed_evalNamed e hint (Means.unbound_sparing.expression value)) hbind
    exact shelters_ite ((composed_nameHint (t := {}) target).shelters.bind fun hint =>
      (hvalue hint).shelters) (hvalue []).shelters

/-- The branches are in place, and so sheltered. -/
theorem shelters_execIf (hkind : n.kind = .ifStatement)
    (hn : ∀ m ∈ n.inPlace, m.Sheltered source) : (execIf n e).Shelters source S := by
  have hplace : n.inPlace = (n.child? .consequence).toList ++
      (n.child? .alternative).toList.flatMap Node.namedChildren := by
    rw [Node.inPlace, hkind]
  rw [hplace] at hn
  refine shelters_part_bind fun condition _ => (shelters_eval condition e).bind fun test =>
    shelters_ite (shelters_part_bind fun m hm => shelters_exec (hn m (by simp [hm]))) ?_
  cases halternative : n.child? .alternative with
  | none => exact shelters_pure ()
  | some alternative =>
    exact shelters_each fun m hm => shelters_exec (hn m (by simp [halternative, hm]))

/-- A body in a loop is in place. -/
theorem shelters_execBody (hbody : body.Sheltered source) :
    (execBody body e labels).Shelters source S := by
  refine shelters_attempt_bind (shelters_exec hbody) fun r => ?_
  split
  · exact shelters_pure true
  · exact shelters_ite (shelters_pure false) (shelters_interrupt _)
  · exact shelters_ite (shelters_pure true) (shelters_interrupt _)
  · exact shelters_interrupt _

theorem shelters_execWhile (hbody : ∀ m, n.child? .body = some m → m.Sheltered source) :
    (execWhile n e labels).Shelters source S := by
  refine shelters_part_bind fun condition _ => shelters_part_bind fun body hn =>
    shelters_repeating (fun _ => ?_) ()
  refine (shelters_eval condition e).bind fun test => shelters_ite (shelters_pure _) ?_
  exact (shelters_execBody (hbody body hn)).bind fun _ =>
    shelters_ite (shelters_pure _) (shelters_pure _)

theorem shelters_execDo (hbody : ∀ m, n.child? .body = some m → m.Sheltered source) :
    (execDo n e labels).Shelters source S := by
  refine shelters_part_bind fun condition _ => shelters_part_bind fun body hn =>
    shelters_repeating (fun _ => ?_) ()
  refine (shelters_execBody (hbody body hn)).bind fun _ => shelters_ite (shelters_pure _) ?_
  exact (shelters_eval condition e).bind fun _ => shelters_ite (shelters_pure _) (shelters_pure _)

/-- A target is bound in a scope that is not sheltered, or assigned. -/
theorem shelters_bindTarget_bind {m : Node} {v : Value} {mode : BindMode}
    (hmode : ∀ kind, mode = .declare kind → ¬ S e) {f : Unit → Action α}
    (hf : ∀ u, (f u).Shelters source S) : (bindTarget m v e mode >>= f).Shelters source S :=
  (composed_bindTarget (t := {}) e (Means.unbound_sparing.expression m) v hmode).shelters.bind hf

/-- What is done in a new scope may declare names there. -/
theorem shelters_childScope_bind {f : ScopeRef → Action α}
    (hf : ∀ e, ¬ S e → (f e).Shelters source S) : (childScope e >>= f).Shelters source S := by
  intro c hc hm w hS
  let scope : Scope := { parent := some e }
  have hnew : ¬ S (w.scopes.alloc scope).1 := fun h => Nat.lt_irrefl _ (hS _ h)
  have halloc := w.scopes.spares_alloc (fun f _ => S f) scope
  exact (hf _ hnew c hc hm ⟨w.heap, (w.scopes.alloc scope).2, w.depth⟩ (halloc.has hS)).since halloc

/-- An item is bound in a scope of its own. -/
theorem shelters_execItem (hbody : body.Sheltered source) (word : String) (v : Value) :
    (execItem n body word v e labels).Shelters source S := by
  refine shelters_part_bind fun left _ => shelters_ite ?_ ?_
  · exact shelters_childScope_bind fun inside hinside =>
      shelters_bindTarget_bind (fun _ _ => hinside) fun _ => shelters_execBody hbody
  · refine shelters_bindTarget_bind (fun kind h => ?_) fun _ => shelters_execBody hbody
    split at h <;> cases h

/-- A loop over items opens a scope for each of them. -/
theorem shelters_execForIn (hbody : ∀ m, n.child? .body = some m → m.Sheltered source) :
    (execForIn n e labels).Shelters source S := by
  refine shelters_source_bind (shelters_part_bind fun body hn => ?_)
  extract_lets word rest
  have hitem (v : Value) : (execItem n body word v e labels).Shelters source S :=
    shelters_execItem (hbody body hn) word v
  have hitems (vs : List Value) : (execItems n body word e labels vs).Shelters source S := by
    refine shelters_repeating (fun items => ?_) vs
    cases items with
    | nil => exact shelters_pure _
    | cons v vs =>
      exact (hitem v).bind fun _ => shelters_ite (shelters_pure _) (shelters_pure _)
  have helements (r : Ref) : (execElements n body word e labels r).Shelters source S := by
    refine shelters_repeating (fun i => (composed_object (t := {}) r).shelters.bind fun o => ?_) 0
    cases o.elements[i]? with
    | none => exact shelters_pure _
    | some v => exact (hitem v).bind fun _ => shelters_ite (shelters_pure _) (shelters_pure _)
  have hiterated (v : Value) :
      (do execItems n body word e labels (← iterate v)).Shelters source S :=
    (composed_iterate (t := {}) v).shelters.bind hitems
  have hrest (keys : List Text) : (rest keys).Shelters source S := hitems _
  refine shelters_part_bind fun right _ => (shelters_eval right e).bind fun collection =>
    shelters_ite ?_ (shelters_ite (hrest [])
      ((composed_enumerableKeys (t := {}) _).shelters.bind hrest))
  cases collection with
  | object r =>
    exact (composed_object (t := {}) r).shelters.bind fun _ =>
      shelters_ite (helements r) (hiterated _)
  | _ => exact hiterated _

theorem shelters_execGuarded (hbody : ∀ m, n.child? .body = some m → m.Sheltered source) :
    (execGuarded n e).Shelters source S := by
  refine shelters_part_bind fun body hn => ?_
  have hguarded : (exec body e).Shelters source S := shelters_exec (hbody body hn)
  cases n.child? .handler with
  | none => exact hguarded
  | some handler =>
    refine shelters_attempt_bind hguarded fun r => ?_
    cases r with
    | ok u => exact shelters_pure ()
    | error i =>
      cases hi : caught? i with
      | none => simpa only [hi] using shelters_interrupt i
      | some v =>
        have hhandler : (runHandler handler v e).Composed (.sparing S) {} :=
          composed_runHandler (composed_of_caught hi)
            (fun p _ => Means.unbound_sparing.expression p) fun _ _ => trivial
        simpa only [hi] using hhandler.shelters

/-- Block, handler and finalizer are in place. -/
theorem shelters_execTry (hkind : n.kind = .tryStatement)
    (hn : ∀ m ∈ n.inPlace, m.Sheltered source) : (execTry n e).Shelters source S := by
  have hplace : n.inPlace =
      (n.child? .body).toList ++ ((n.child? .finalizer).bind (·.child? .body)).toList := by
    rw [Node.inPlace, hkind]
  rw [hplace] at hn
  have hguarded : (execGuarded n e).Shelters source S :=
    shelters_execGuarded fun m hm => hn m (by simp [hm])
  unfold execTry
  cases hfinalizer : n.child? .finalizer with
  | none => exact hguarded
  | some finalizer =>
    have hrun (m : Node) (hm : finalizer.child? .body = some m) : (exec m e).Shelters source S :=
      shelters_exec (hn m (by simp [hfinalizer, hm]))
    refine shelters_attempt_bind hguarded fun r => ?_
    split
    · exact shelters_interrupt _
    · exact shelters_part_bind fun m hm => (hrun m hm).bind fun _ => shelters_interrupt _
    · exact shelters_part_bind hrun

theorem shelters_execLabeledStatement (hbody : ∀ m, n.child? .body = some m → m.Sheltered source) :
    (execLabeledStatement n e labels).Shelters source S := by
  refine shelters_part_bind fun label _ =>
    (composed_textOf (t := {}) label).shelters.bind fun l => ?_
  refine shelters_part_bind fun body hn =>
    shelters_ite (shelters_execLabeled (hbody body hn)) ?_
  refine shelters_attempt_bind (shelters_exec (hbody body hn)) fun r => ?_
  split
  · exact shelters_pure ()
  · exact shelters_ite (shelters_pure ()) (shelters_interrupt _)
  · exact shelters_interrupt _

/-- A sheltered statement shelters, one lemma for each kind. -/
theorem shelters_execute (hn : n.Sheltered source) : (execute n e labels).Shelters source S := by
  obtain ⟨hword, hclass, hplace⟩ := hn
  have hK := Means.unbound_sparing (S := S) |>.hereditary
  have hnothing : (pure () : Action Unit).Shelters source S := shelters_pure ()
  have hbody (h : n.inPlace = (n.child? .body).toList) (m : Node) (hm : n.child? .body = some m) :
      m.Sheltered source := hplace m (by simp [h, hm])
  have hconfined : (Means.sparing S).confined {} labels n := trivial
  have hlabel : (labelOf n).Shelters source S := by
    unfold labelOf
    split
    · exact (composed_textOf (t := {}) _).shelters.bind fun _ => shelters_pure _
    · exact shelters_pure _
  unfold execute
  split
  · cases n.namedChildren.head? with
    | none => exact hnothing
    | some x => exact (shelters_eval x e).bind fun _ => hnothing
  · next hkind => exact shelters_execDeclaration (hword (by rw [hkind]; rfl))
  · next hkind => exact shelters_execDeclaration (hword (by rw [hkind]; rfl))
  · next hkind => exact (composed_execBlock hK hconfined (by rw [hkind]; rfl)).shelters
  · next hkind => exact shelters_execIf hkind hplace
  · next hkind => exact shelters_execWhile (hbody (by rw [Node.inPlace, hkind]))
  · next hkind => exact shelters_execDo (hbody (by rw [Node.inPlace, hkind]))
  · next hkind => exact (composed_execFor hK hconfined (by rw [hkind]; rfl)).shelters
  · next hkind => exact shelters_execForIn (hbody (by rw [Node.inPlace, hkind]))
  · next hkind => exact (composed_execReturn hK hconfined hkind).shelters
  · exact hlabel.bind fun _ => shelters_interrupt _
  · exact hlabel.bind fun _ => shelters_interrupt _
  · exact shelters_part_bind fun x _ => (shelters_eval x e).bind fun _ => shelters_interrupt _
  · next hkind => exact shelters_execTry hkind hplace
  · next hkind => exact (composed_execSwitch hK hconfined hkind).shelters
  · next hkind => exact shelters_execLabeledStatement (hbody (by rw [Node.inPlace, hkind]))
  · exact hnothing
  · exact hnothing
  · exact hnothing
  · exact hnothing
  · exact hnothing
  · exact hnothing
  · next hkind => exact absurd hkind hclass
  · exact shelters_interrupt _
  · exact shelters_interrupt _
  · exact shelters_interrupt _

end Action
end Stepper.Machine

namespace Stepper.Execution

open Syntax Machine Builtin

variable {S : ScopeRef → Prop}

/-- A level of evaluation shelters if the one below it does. -/
theorem evaluatorIn_shelters {c : Context} (hc : c.inner.Shelters c.source S) :
    (evaluatorIn c).Shelters c.source S where
  toSpares := evaluatorIn_spares hc.toSpares
  execSheltered _ _ _ w hn := Action.shelters_execute hn c rfl hc w

theorem exhausted_shelters (source : String) : exhausted.Shelters source S where
  toSpares := exhausted_spares
  execSheltered _ _ _ w _ _ := .refl _ w.scopes

/-- Sheltered statements declare nothing where they are run, however deep they are evaluated. -/
theorem evaluator_shelters (source : String) (wantsText : Bool) (levels : Nat) :
    (evaluator source wantsText levels).Shelters source S := by
  induction levels with
  | zero => exact exhausted_shelters source
  | succ levels ih =>
    let c : Context :=
      (contextOver source wantsText levels (evaluator source wantsText levels))
    exact evaluatorIn_shelters (c := c) ih

/-- A declaration by `let` or `const` binds its names in the scope that it is run in, and nothing
else; a sheltered statement, whatever it runs, binds nothing in that scope or in others there were.
-/
theorem statements_bind_where_they_run {c : Context} {wantsText : Bool} {levels : Nat}
    (hc : c.inner = evaluator c.source wantsText levels) {w : World} {e : ScopeRef}
    (he : e.index < w.scopes.all.size) (n : Node) (labels : List String) :
    (n.IsLexical c.source → (Action.execute n e labels c w).Ends fun _ u =>
      w.scopes.Declares (Action.declarationKind (n.declarationWord c.source))
        (n.declaredNames c.source) e u.scopes) ∧
    (n.Sheltered c.source →
      (Action.execute n e labels c w).Spares (fun f => f.index < w.scopes.all.size) w) := by
  refine ⟨fun hn => ?_, fun hn => ?_⟩
  · have hrun : Action.execute n e labels = Action.execDeclaration n e := by
      unfold Action.execute
      rw [hn.kind]
    rw [hrun]
    exact Action.declares_execDeclaration hn c rfl (hc ▸ evaluator_declares c.source wantsText levels)
      w he
  · exact Action.shelters_execute hn c rfl (hc ▸ evaluator_shelters c.source wantsText levels) w
      fun f hf => hf

end Stepper.Execution
