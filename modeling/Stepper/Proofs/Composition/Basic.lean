import Stepper.Execution.Run
import Stepper.Proofs.Composition.Targets
import Stepper.Proofs.Sparing

/-!
What actions are made of. An action is composed if it is put together from single operations on the
state, calls of hooks and evaluations of what is nested, by sequencing and by looking at what a part
came to. Whoever looks at what a part came to has to let a stop pass, and nobody learns whether the
host wants text: in these two things a composed action is bound. Its means bound it further: they
say what it may evaluate and run, where the signals of that may lead, which functions it may make
and in which scopes it may declare names, its own new ones aside. What holds of every composed
action is proved by induction on how it is put together; that the functions of the machine are
composed, all but those of the console, is said once for each of them.
-/
namespace Stepper.Machine

open Syntax

variable {α β γ : Type}

/-- The course that has this outcome at once. -/
def Outcome.course : Outcome α → Course α
  | .done a w => .done a w
  | .broke i w => .broke i w

/-- The state that an outcome leaves behind. -/
def Outcome.world : Outcome α → World
  | .done _ w => w
  | .broke _ w => w

/-- Anything but a console call. -/
def Call.IsHook : Call → Prop
  | .console _ _ => False
  | _ => True

/-! ### Means -/

/-- What an action may make use of. -/
structure Means where
  /-- Sources that the program can have. -/
  source : String → Prop
  /-- Nodes that may be evaluated or run under labels where signals have targets. -/
  confined : Targets → List String → Node → Prop
  /-- Nodes of functions that may be made. -/
  function : Node → Prop
  /-- Whether signals may go further than to their targets. -/
  leaks : Prop
  /-- Whether a body may be run one function deeper. -/
  descends : Prop
  /-- Scopes in which names may be declared. -/
  opens : ScopeRef → Prop
  /-- Scopes from which names may be assigned to. -/
  assigns : ScopeRef → Prop

namespace Means

/-- Without a bound on what is evaluated and run. -/
def all : Means where
  source _ := True
  confined _ _ _ := True
  function _ := True
  leaks := True
  descends := True
  opens _ := True
  assigns _ := True

/-- Without a bound, but for bodies: they are left to others. -/
def level : Means := { all with descends := False }

variable {K : Means} {t u : Targets} {h : Heap} {o : Object} {i : Interrupt}

/-- What may cut an action short where signals have these targets. -/
def Admits (K : Means) (t : Targets) (i : Interrupt) : Prop := K.leaks ∨ t.Admits i

/-- What may cut an action short among some targets may do so among more. -/
theorem Admits.mono (hi : K.Admits t i) (htu : t ≤ u) : K.Admits u i := hi.imp_right (htu i)

/-- Nodes that may be evaluated or run somewhere. -/
def expression (K : Means) (n : Node) : Prop := ∃ t labels, K.confined t labels n

/-- A function of the program that holds nothing else. -/
structure Covers (K : Means) (c : Closure) : Prop where
  node : ∀ n, c.node = some n → K.function n
  fields : ∀ p ∈ c.fields, ∀ n, p.2 = some n → K.expression n

def Carries (K : Means) (o : Object) : Prop := ∀ c, o.content = .closure c → K.Covers c

/-- All functions of the program there are hold nothing else. -/
def Sound (K : Means) (h : Heap) : Prop := ∀ r, K.Carries (h.get r)

/-- Whatever is evaluated, run and made, these means allow it. -/
structure Unbound (K : Means) : Prop where
  source : ∀ s, K.source s
  confined : ∀ t labels n, K.confined t labels n
  function : ∀ n, K.function n
  leaks : K.leaks

/-- A law that binds no tree takes every node for an expression. -/
theorem Unbound.expression (hK : K.Unbound) (n : Node) : K.expression n :=
  ⟨{}, [], hK.confined {} [] n⟩

theorem Unbound.carries (hK : K.Unbound) (o : Object) : K.Carries o :=
  fun _ _ => ⟨fun n _ => hK.function n, fun _ _ n _ => hK.expression n⟩

theorem Unbound.sound (hK : K.Unbound) (h : Heap) : K.Sound h := fun r => hK.carries (h.get r)

theorem unbound_all : all.Unbound :=
  ⟨fun _ => trivial, fun _ _ _ => trivial, fun _ => trivial, trivial⟩

theorem expression_all (n : Node) : all.expression n := unbound_all.expression n

theorem carries_all (o : Object) : all.Carries o := unbound_all.carries o

theorem sound_all (h : Heap) : all.Sound h := unbound_all.sound h

theorem unbound_level : level.Unbound :=
  ⟨fun _ => trivial, fun _ _ _ => trivial, fun _ => trivial, trivial⟩

theorem expression_level (n : Node) : level.expression n := unbound_level.expression n

theorem carries_level (o : Object) : level.Carries o := unbound_level.carries o

/-- What holds no function of the program can have any properties. -/
@[grind ←] theorem carries_of_content (ho : ∀ c, o.content ≠ .closure c) : K.Carries o :=
  fun c hc => absurd hc (ho c)

/-- An object of the law may be made. -/
theorem Sound.alloc (hh : K.Sound h) (ho : K.Carries o) : K.Sound (h.alloc o).2 := by
  intro r
  simp only [Heap.get, Heap.alloc, Array.getD_eq_getD_getElem?, Array.getElem?_push]
  split
  · exact ho
  · simpa only [Heap.get, Array.getD_eq_getD_getElem?] using hh r

/-- Objects of the law may be changed to objects of the law. -/
theorem Sound.modify (hh : K.Sound h) {f : Object → Object} (hf : ∀ o, K.Carries o → K.Carries (f o))
    (r : Ref) : K.Sound (h.modify r f) := by
  intro s
  have hs := hh s
  simp only [Heap.get, Heap.modify, Array.getD_eq_getD_getElem?, Array.getElem?_modify] at hs ⊢
  split
  · cases he : h.objects[s.index]? with
    | none => simpa [he] using hs
    | some o => exact hf o (by simpa [he] using hs)
  · exact hs

end Means

namespace Action

/-- What an action comes to that asks the scopes first. -/
def outcomeOf (x : Except ScopeError α) (f : α → Outcome β) (w : World) : Outcome β :=
  match x with
  | .ok a => f a
  | .error e => .broke (.raised e.kind e.message) w

/-- An assignment that fails changes nothing. -/
theorem operates_outcomeOf (w : World) {x : Except ScopeError α} {f : α → Outcome β}
    (hf : ∀ a, x = .ok a → w.Operates (f a).world) : w.Operates (outcomeOf x f w).world := by
  cases x with
  | ok a => exact hf a rfl
  | error e => exact .refl w

/-- What an assignment comes to. -/
def assigned (e : ScopeRef) (name : String) (v : Value) (w : World) : Outcome Unit :=
  outcomeOf (w.scopes.assignable e name)
    (fun p => .done () ⟨w.heap, w.scopes.setBinding p.1 name ⟨some v, p.2⟩, w.depth⟩) w

theorem assign_eq (e : ScopeRef) (name : String) (v : Value) (c : Context) (w : World) :
    assign e name v c w = (assigned e name v w).course := by
  obtain ⟨heap, scopes, depth⟩ := w
  simp only [assign, assigned]
  cases scopes.assignable e name with
  | ok p => rfl
  | error x => rfl

/-- An assignment is refused, or changes the binding that is found. -/
theorem assigned_cases (e : ScopeRef) (name : String) (v : Value) (w : World) :
    (∃ x, w.scopes.assignable e name = .error x ∧
      assigned e name v w = .broke (.raised x.kind x.message) w) ∨
    ∃ f kind, w.scopes.assignable e name = .ok (f, kind) ∧ assigned e name v w =
      .done () ⟨w.heap, w.scopes.setBinding f name ⟨some v, kind⟩, w.depth⟩ := by
  unfold assigned
  cases h : w.scopes.assignable e name with
  | ok p => exact .inr ⟨p.1, p.2, rfl, rfl⟩
  | error x => exact .inl ⟨x, rfl, rfl⟩

theorem steps_assigned (e : ScopeRef) (name : String) (v : Value) (w : World) :
    w.Steps (assigned e name v w).world := by
  rcases assigned_cases e name v w with ⟨x, -, h⟩ | ⟨f, kind, -, h⟩
  · exact h ▸ .refl w
  · exact h ▸ ⟨⟨.refl _, w.scopes.evolves_setBinding ..⟩, rfl⟩

theorem spares_assigned (e : ScopeRef) (name : String) (v : Value) (w : World)
    (P : ScopeRef → String → Prop) : w.scopes.Spares P (assigned e name v w).world.scopes := by
  rcases assigned_cases e name v w with ⟨x, -, h⟩ | ⟨f, kind, hok, h⟩
  · exact h ▸ .refl P _
  · exact h ▸ Scopes.spares_assign hok v P

/-- How it ends to decide `this` a second time. -/
def decidedTwice : Interrupt := .raised .referenceError "Super constructor may only be called once"

/-- Decides `this` in a scope by what an action gives, unless it is decided there before. -/
def decideThis (e : ScopeRef) (x : Action Value) : Action Value := do
  if (← scope e).this.isSome then interrupt decidedTwice
  let this ← x
  setThis e this
  return this

/-- The receiver is decided once, after what is done to decide it. -/
theorem decideThis_eq (e : ScopeRef) (x : Action Value) (c : Context) (w : World) :
    decideThis e x c w = if (w.scopes.get e).this.isSome then .broke decidedTwice w
      else (x c w).bind fun v u => .done v (u.withThis e v) := by
  change (if (w.scopes.get e).this.isSome then _ else _ : Action Value) c w = _
  split <;> rfl

end Action

/-- An outcome that leaves a sound heap, and is a signal only where that has a target. -/
def Outcome.Keeps (K : Means) (t : Targets) : Outcome α → Prop
  | .done _ w => K.Sound w.heap
  | .broke i w => K.Sound w.heap ∧ K.Admits t i

namespace Action

inductive Composed (K : Means) : Targets → {α : Type} → Action α → Prop where
  /-- A single operation on the state, which takes nothing back and leaves bindings alone. -/
  | atOnce {t : Targets} {α : Type} (f : World → Outcome α)
      (hf : ∀ w, K.Sound w.heap → (f w).Keeps K t) (hw : ∀ w : World, w.Operates (f w).world) :
      Composed K t fun _ w => (f w).course
  | declare {t : Targets} (e : ScopeRef) (name : String) (kind : BindingKind)
      (value : Option Value) (he : K.opens e) : Composed K t (declare e name kind value)
  | assign {t : Targets} (e : ScopeRef) (name : String) (v : Value) (he : K.assigns e) :
      Composed K t (assign e name v)
  /-- Makes a scope, in which names may be declared. -/
  | within {t : Targets} {β : Type} (s : Scope) {f : ScopeRef → Action β}
      (hf : ∀ e, K.opens e → Composed K t (f e)) : Composed K t (allocScope s >>= f)
  /-- Looks at the source. -/
  | source {t : Targets} {β : Type} {f : String → Action β}
      (hf : ∀ s, K.source s → Composed K t (f s)) : Composed K t (source >>= f)
  | realm {t : Targets} : Composed K t realm
  | room {t : Targets} : Composed K t room
  /-- Decides `this` by what an action gives. -/
  | decides {t : Targets} (e : ScopeRef) {x : Action Value} (hx : Composed K t x) :
    Composed K t (decideThis e x)
  | tell {t : Targets} (f : Heap → Call) (hf : ∀ h, (f h).IsHook) : Composed K t (tell f)
  /-- Looks at an object, which is as all objects are. -/
  | look {t : Targets} {β : Type} (r : Ref) {f : Object → Action β}
      (hf : ∀ o, K.Carries o → Composed K t (f o)) : Composed K t (object r >>= f)
  | bind {t : Targets} {α β : Type} {x : Action α} {f : α → Action β} (hx : Composed K t x)
      (hf : ∀ a, Composed K t (f a)) : Composed K t (x >>= f)
  /-- Looks at what a part came to, in which signals may have targets of their own, and lets a stop
  pass. -/
  | handle {t u : Targets} {α β : Type} {x : Action α} {f : Except Interrupt α → Action β}
      (hx : Composed K u x)
      (hf : ∀ r, r ≠ .error .stopped → (∀ i, r = .error i → K.Admits u i) → Composed K t (f r))
      (hstop : f (.error .stopped) = interrupt .stopped) : Composed K t (attempt x >>= f)
  | deeper {t : Targets} {α : Type} {x : Action α} (hK : K.descends) (hx : Composed K t x) :
      Composed K t (deeper x)
  | eval {t : Targets} (n : Node) (e : ScopeRef) (isHead : Bool) (hn : K.expression n) :
      Composed K t (inner fun m => m.eval n e isHead)
  | exec {t u : Targets} (n : Node) (e : ScopeRef) (labels : List String)
      (hn : K.confined u labels n) (hut : u ≤ t) (he : K.opens e) :
      Composed K t (inner fun m => m.exec n e labels)
  | bindTarget {t : Targets} (n : Node) (v : Value) (e : ScopeRef) (mode : BindMode)
      (hn : K.expression n) (he : ∀ kind, mode = .declare kind → K.opens e) :
      Composed K t (inner fun m => m.bind n v e mode)
  | call {t : Targets} (f this : Value) (args : List Value) :
      Composed K t (inner fun m => m.call f this args)
  | construct {t : Targets} (f : Value) (args : List Value) (newTarget : Value) :
      Composed K t (inner fun m => m.construct f args newTarget)

attribute [grind ←] Composed.realm Composed.room Composed.bind

variable {K : Means} {t : Targets}

/-! ### Operations -/

/-- A value is returned without an operation. -/
@[grind ←] theorem composed_pure (a : α) : (pure a : Action α).Composed K t :=
  .atOnce (fun w => .done a w) (fun _ hw => hw) .refl

/-- A choice is composed if each part is where the test takes it. -/
theorem composed_ite_of {p : Prop} [Decidable p] {x y : Action α} (hx : p → x.Composed K t)
    (hy : ¬ p → y.Composed K t) : (if p then x else y).Composed K t := by
  split
  · exact hx ‹p›
  · exact hy ‹¬ p›

theorem composed_ite {p : Prop} [Decidable p] {x y : Action α} (hx : x.Composed K t)
    (hy : y.Composed K t) : (if p then x else y).Composed K t :=
  composed_ite_of (fun _ => hx) fun _ => hy

/-- An action is cut short by what the law admits. -/
theorem composed_interrupt {i : Interrupt} (hi : K.Admits t i) :
    (interrupt i : Action α).Composed K t :=
  .atOnce (fun w => .broke i w) (fun _ hw => ⟨hw, hi⟩) .refl

@[grind ←] theorem composed_raise (kind : ErrorKind) (message : Text) :
    (raise kind message : Action α).Composed K t := composed_interrupt (.inr trivial)

@[grind ←] theorem composed_typeError (message : Text) :
    (typeError message : Action α).Composed K t := composed_interrupt (.inr trivial)

@[grind ←] theorem composed_fault (f : Fault) : (fault f : Action α).Composed K t :=
  composed_interrupt (.inr trivial)

@[grind ←] theorem composed_ofExcept (x : Except Fault α) : (ofExcept x).Composed K t := by
  cases x with
  | ok a => exact composed_pure a
  | error f => exact composed_fault f

@[grind ←] theorem composed_textOf (n : Node) : (textOf n).Composed K t :=
  .source fun source _ => composed_pure (n.text source)

@[grind ←] theorem composed_heap : heap.Composed K t :=
  .atOnce (fun w => .done w.heap w) (fun _ hw => hw) .refl

@[grind ←] theorem composed_object (r : Ref) : (object r).Composed K t :=
  .atOnce (fun w => .done (w.heap.get r) w) (fun _ hw => hw) .refl

/-- An object is made if the law lets it carry its content. -/
@[grind ←] theorem composed_alloc {o : Object} (ho : K.Carries o) : (alloc o).Composed K t :=
  .atOnce (fun w => .done (w.heap.alloc o).1 ⟨(w.heap.alloc o).2, w.scopes, w.depth⟩)
    (fun _ hw => hw.alloc ho) fun w => .of_scopes ⟨⟨w.heap.evolves_alloc o, .refl _⟩, rfl⟩ rfl

/-- What is no function of the program can be put in place anywhere. -/
theorem composed_allocData {o : Object} (ho : ∀ c, o.content ≠ .closure c) :
    (alloc o).Composed K t := composed_alloc (Means.carries_of_content ho)

/-- An object is changed if it evolves and the law lets it carry the change. -/
theorem composed_update (r : Ref) {f : Object → Object} (hf : ∀ o, K.Carries o → K.Carries (f o))
    (ho : ∀ o : Object, o.Evolves (f o)) : (update r f).Composed K t :=
  .atOnce (fun w => .done () ⟨w.heap.modify r f, w.scopes, w.depth⟩) (fun _ hw => hw.modify hf r)
    fun w => .of_scopes ⟨⟨w.heap.evolves_modify r (ho _), .refl _⟩, rfl⟩ rfl

@[grind ←] theorem composed_scopes : scopes.Composed K t :=
  .atOnce (fun w => .done w.scopes w) (fun _ hw => hw) .refl

@[grind ←] theorem composed_scope (e : ScopeRef) : (scope e).Composed K t :=
  .atOnce (fun w => .done (w.scopes.get e) w) (fun _ hw => hw) .refl

/-- A scope is opened. -/
@[grind ←] theorem composed_allocScope (s : Scope) : (allocScope s).Composed K t :=
  .atOnce (fun w => .done (w.scopes.alloc s).1 ⟨w.heap, (w.scopes.alloc s).2, w.depth⟩)
    (fun _ hw => hw) fun w => w.operates_allocScope s

@[grind ←] theorem composed_childScope (e : ScopeRef) : (childScope e).Composed K t :=
  composed_allocScope _

/-- What is done in a new scope may declare names there. -/
theorem composed_childScope_bind {e : ScopeRef} {f : ScopeRef → Action β}
    (hf : ∀ e, K.opens e → (f e).Composed K t) : (childScope e >>= f).Composed K t :=
  .within _ hf

/-- A name is declared where the law lets names be declared. -/
@[grind ←] theorem composed_declare {e : ScopeRef} (he : K.opens e) (name : String)
    (kind : BindingKind) (value : Option Value) : (declare e name kind value).Composed K t :=
  .declare e name kind value he

@[grind ←] theorem composed_depth : depth.Composed K t :=
  .atOnce (fun w => .done w.depth w) (fun _ hw => hw) .refl

theorem keeps_outcomeOf {w : World} (hw : K.Sound w.heap) (x : Except ScopeError α)
    {f : α → Outcome β} (hf : ∀ a, (f a).Keeps K t) : (outcomeOf x f w).Keeps K t := by
  cases x with
  | ok a => exact hf a
  | error e => exact ⟨hw, .inr trivial⟩

/-- An assignment keeps the law, refused or not. -/
theorem keeps_assigned {w : World} (hw : K.Sound w.heap) (e : ScopeRef) (name : String) (v : Value) :
    (assigned e name v w).Keeps K t := keeps_outcomeOf hw _ fun _ => hw

/-- An operation that asks the scopes first, as the outcome that it has. -/
theorem composed_of_outcome {x : Action β} (ask : World → Except ScopeError α)
    (f : World → α → Outcome β) (hf : ∀ w a, K.Sound w.heap → (f w a).Keeps K t)
    (hw : ∀ (w : World) a, ask w = .ok a → w.Operates (f w a).world)
    (h : ∀ c w, x c w = (outcomeOf (ask w) (f w) w).course) : x.Composed K t := by
  have hx : x = fun _ w => (outcomeOf (ask w) (f w) w).course :=
    funext fun c => funext fun w => h c w
  rw [hx]
  exact .atOnce _ (fun w hsound => keeps_outcomeOf hsound _ fun a => hf w a hsound)
    fun w => operates_outcomeOf w (hw w)

/-- A name is looked up, and the look-up may be refused. -/
@[grind ←] theorem composed_lookup (e : ScopeRef) (name : String) :
    (lookup e name).Composed K t := by
  refine composed_of_outcome (·.scopes.read e name) (fun w v => .done v w) (fun _ _ hw => hw)
    (fun w _ _ => .refl w) fun c w => ?_
  unfold lookup
  cases w.scopes.read e name with
  | ok v => rfl
  | error x => rfl

@[grind ←] theorem composed_this (e : ScopeRef) : (this e).Composed K t := by
  refine composed_of_outcome (·.scopes.this e) (fun w v => .done v w) (fun _ _ hw => hw)
    (fun w _ _ => .refl w) fun c w => ?_
  unfold this
  cases w.scopes.this e with
  | ok v => rfl
  | error x => rfl

/-- A name is assigned where the law lets names be assigned. -/
@[grind ←] theorem composed_assign {e : ScopeRef} (he : K.assigns e) (name : String) (v : Value) :
    (assign e name v).Composed K t := .assign e name v he

theorem bind_assoc (x : Action α) (f : α → Action β) (g : β → Action γ) :
    x >>= f >>= g = x >>= fun a => f a >>= g := by
  funext c w
  exact (x c w).bind_assoc _ _

/-- Two steps and what follows may be taken in any grouping. -/
theorem composed_bind_bind {x : Action α} {f : α → Action β} {g : β → Action γ}
    (hx : x.Composed K t) (hf : ∀ a, (f a >>= g).Composed K t) :
    (x >>= f >>= g).Composed K t := by
  rw [bind_assoc]
  exact .bind hx hf

theorem ite_bind {p : Prop} [Decidable p] (x y : Action α) (f : α → Action β) :
    (if p then x else y) >>= f = if p then x >>= f else y >>= f := by
  split <;> rfl

/-- What is done with the text of a node is done with its text in a source of the program. -/
theorem composed_textOf_bind {n : Node} {f : String → Action α}
    (hf : ∀ s, K.source s → (f (n.text s)).Composed K t) : (textOf n >>= f).Composed K t := by
  unfold textOf
  rw [bind_assoc]
  exact .source hf

section

variable {n : Node} (e : ScopeRef)

/-- An expression of the law is evaluated by the context. -/
@[grind ←] theorem composed_eval (hn : K.expression n) : (eval n e).Composed K t :=
  .eval n e false hn

@[grind ←] theorem composed_evalHead (hn : K.expression n) : (evalHead n e).Composed K t :=
  .eval n e true hn

@[grind ←] theorem composed_bindTarget (hn : K.expression n) (v : Value) {mode : BindMode}
    (he : ∀ kind, mode = .declare kind → K.opens e) : (bindTarget n v e mode).Composed K t :=
  .bindTarget n v e mode hn he

variable {e}

/-- A confined statement is executed by the context, in a scope that may be opened. -/
theorem composed_exec (he : K.opens e) (hn : K.confined t [] n) : (exec n e).Composed K t :=
  .exec n e [] hn (Targets.le_refl t) he

theorem composed_execLabeled (he : K.opens e) {labels : List String}
    (hn : K.confined t labels n) : (execLabeled n e labels).Composed K t :=
  .exec n e labels hn (Targets.le_refl t) he

end

/-- A call is made by the context. -/
@[grind ←] theorem composed_call (f this : Value) (args : List Value) :
    (call f this args).Composed K t := .call f this args

@[grind ←] theorem composed_construct (f : Value) (args : List Value) (newTarget : Value) :
    (construct f args newTarget).Composed K t := .construct f args newTarget

/-- A round of a loop, and the rest of it. -/
theorem loop_succ (body : α → Action (α ⊕ β)) (fuel : Nat) (a : α) :
    loop body (fuel + 1) a = (body a >>= fun x => match x with
      | .inl a => (loop body fuel a : Action β)
      | .inr b => pure b) := by
  funext c w
  rw [loop]
  change _ = (body a c w).bind _
  cases body a c w with
  | done x w => cases x <;> rfl
  | broke i w => rfl
  | tell q w next =>
    simp only [Course.bind_tell]
    congr 1
    funext r
    congr 1
    funext x w
    cases x <;> rfl

/-- A loop is composed if each of its rounds is, with all that comes after it, wherever something
holds that holds again after a round. -/
theorem composed_loop_of {p : α → Prop} {body : α → Action (α ⊕ β)}
    (h : ∀ a, p a → ∀ g : α ⊕ β → Action β, (∀ a, p a → (g (.inl a)).Composed K t) →
      (∀ b, (g (.inr b)).Composed K t) → (body a >>= g).Composed K t)
    (fuel : Nat) {a : α} (ha : p a) : Composed K t (loop body fuel a) := by
  induction fuel generalizing a with
  | zero =>
    exact .atOnce (fun w => .broke (.fault .outOfFuel) w) (fun _ hw => ⟨hw, .inr trivial⟩) .refl
  | succ fuel ih =>
    rw [loop_succ]
    exact h a ha _ (fun _ hb => ih hb) fun b => composed_pure b

/-- A loop is composed if its rounds are. -/
@[grind ←] theorem composed_repeating {body : α → Action (α ⊕ β)} (h : ∀ a, (body a).Composed K t)
    (a : α) : (repeating a body).Composed K t :=
  composed_loop_of (p := fun _ => True) (fun a _ g hl hr => .bind (h a) fun x => by
    cases x with
    | inl a => exact hl a trivial
    | inr b => exact hr b) maxRounds trivial

theorem each_cons (f : α → Action Unit) (a : α) (as : List α) :
    each f (a :: as) = (f a >>= fun _ => (each f as : Action Unit)) := by
  funext c w
  rw [each]
  change _ = (f a c w).bind _
  cases f a c w <;> rfl

/-- A list is gone through if each of its members is composed. -/
theorem composed_each_of_mem {f : α → Action Unit} {as : List α}
    (h : ∀ a ∈ as, (f a).Composed K t) : Composed K t (each f as) := by
  induction as with
  | nil => exact composed_pure ()
  | cons a as ih =>
    rw [each_cons]
    exact .bind (h a List.mem_cons_self) fun _ => ih fun b hb => h b (List.mem_cons_of_mem a hb)

@[grind ←] theorem composed_each {f : α → Action Unit} (h : ∀ a, (f a).Composed K t) (as : List α) :
    Composed K t (each f as) := composed_each_of_mem fun a _ => h a

theorem collectRev_cons (f : α → Action β) (a : α) (as : List α) (acc : List β) :
    collectRev f (a :: as) acc =
      (f a >>= fun b => (collectRev f as (b :: acc) : Action (List β))) := by
  funext c w
  rw [collectRev]
  change _ = (f a c w).bind _
  cases f a c w <;> rfl

theorem composed_collectRev {f : α → Action β} {as : List α} (h : ∀ a ∈ as, (f a).Composed K t)
    (acc : List β) : Composed K t (collectRev f as acc) := by
  induction as generalizing acc with
  | nil => exact composed_pure acc
  | cons a as ih =>
    rw [collectRev_cons]
    exact .bind (h a List.mem_cons_self) fun b =>
      ih (fun b hb => h b (List.mem_cons_of_mem a hb)) (b :: acc)

theorem composed_collect_of_mem {f : α → Action β} {as : List α}
    (h : ∀ a ∈ as, (f a).Composed K t) : (collect f as).Composed K t :=
  .bind (composed_collectRev h []) fun bs => composed_pure bs.reverse

/-- What is collected over a list is composed member by member. -/
@[grind ←] theorem composed_collect {f : α → Action β} (h : ∀ a, (f a).Composed K t) (as : List α) :
    (collect f as).Composed K t := composed_collect_of_mem fun a _ => h a

@[grind ←] theorem composed_mapM {f : α → Action β} (h : ∀ a, (f a).Composed K t) (as : List α) :
    (as.mapM f).Composed K t := by
  have hloop : ∀ acc, (List.mapM.loop f as acc).Composed K t := by
    induction as with
    | nil => exact fun acc => composed_pure acc.reverse
    | cons a as ih => exact fun acc => .bind (h a) fun b => ih (b :: acc)
  exact hloop []

end Action
end Stepper.Machine
