import Stepper.Proofs.Depth
import Stepper.Proofs.Watching

/-!
How a derived constructor comes to its `this`. The constructor that the class extends decides it,
and whether it is decided already is asked before that constructor runs. So what is begun when
`this` is decided leaves it as it is, and calls no such constructor any more. But of two calls one
of which is made in the course of the other both get through: the inner one decides `this`, and then
the outer one decides it again.
-/
namespace Stepper.Machine

variable {α β σ : Type} {w v u : World} {e f : ScopeRef}

/-- Where `this` has been decided it is the same. -/
structure World.KeepsThis (w v : World) : Prop where
  evolves : w.Evolves v
  this : ∀ e a, e.index < w.scopes.all.size → (w.scopes.get e).this = some a →
    (v.scopes.get e).this = some a

theorem World.KeepsThis.trans (h : w.KeepsThis v) (k : v.KeepsThis u) : w.KeepsThis u :=
  ⟨h.evolves.trans k.evolves, fun e a he ha =>
    k.this e a (Nat.lt_of_lt_of_le he h.evolves.scopes.size) (h.this e a he ha)⟩

theorem World.KeepsThis.of_same (h : w.Evolves v)
    (hsame : ∀ e, e.index < w.scopes.all.size → (v.scopes.get e).this = (w.scopes.get e).this) :
    w.KeepsThis v := ⟨h, fun e _ he ha => (hsame e he).trans ha⟩

theorem Scopes.this_setBinding (s : Scopes) (e : ScopeRef) (name : String) (b : Binding)
    (f : ScopeRef) : ((s.setBinding e name b).get f).this = (s.get f).this := by
  unfold setBinding
  by_cases hf : e = f
  · subst hf
    by_cases hlt : e.index < s.all.size
    · rw [get_modify_self _ _ hlt]
    · rw [modify_of_le (Nat.le_of_not_lt hlt)]
  · rw [get_modify_of_ne _ _ hf]

theorem Scopes.this_declare (s : Scopes) (e : ScopeRef) (name : String) (kind : BindingKind)
    (value : Option Value) (f : ScopeRef) :
    ((s.declare e name kind value).get f).this = (s.get f).this := by
  unfold declare
  split
  · rfl
  · exact s.this_setBinding e name _ f

theorem World.this_withThis (v : World) {a : Value} (he : e.index < v.scopes.all.size) :
    ((v.withThis e a).scopes.get e).this = some a := by
  unfold World.withThis
  rw [Scopes.get_modify_self _ _ he]

/-- What is decided where it was not leaves alone what had been decided before. -/
theorem World.KeepsThis.decide (h : w.KeepsThis v) (hnone : (w.scopes.get e).this = none)
    (a : Value) : w.KeepsThis (v.withThis e a) := by
  refine ⟨h.evolves.trans (v.steps_withThis e a).toEvolves, fun f b hf hb => ?_⟩
  have hne : e ≠ f := by
    rintro rfl
    rw [hnone] at hb
    cases hb
  unfold World.withThis
  rw [Scopes.get_modify_of_ne _ _ hne]
  exact h.this f b hf hb

/-- No single operation decides `this` again, and what decides it has asked before. -/
theorem leads_keepsThis :
    Means.all.Leads (fun _ => True) World.KeepsThis (fun _ => False) where
  unbound := Means.unbound_all
  descends := trivial
  trans := .trans
  next _ _ := trivial
  operates _ h := .of_same h.toEvolves h.this
  decides a _ hnone h := h.decide hnone a
  declare _ _ _ _ _ := .of_same ⟨.refl _, Scopes.evolves_declare ..⟩
    fun f _ => Scopes.this_declare _ _ _ _ _ f
  assign {w e} name v _ _ := by
    refine .of_same (Action.steps_assigned e name v w).toEvolves fun f _ => ?_
    rcases Action.assigned_cases e name v w with ⟨_, -, h⟩ | ⟨g, kind, -, h⟩
    · rw [h]
      rfl
    · rw [h]
      exact Scopes.this_setBinding _ g name _ f
  fresh _ _ := trivial
  deeper depth _ := .of_same (World.evolves_depth _ depth) fun _ _ => rfl
  stopped _ h := h

end Stepper.Machine

namespace Stepper.Execution

open Syntax Machine Machine.Action Builtin

section

variable {I : World → Prop} {R : World → World → Prop} {C : World → Prop}
  (hK : Means.all.Leads I R C)

include hK

theorem evaluatorIn_goes {c : Context} {m : Evaluator} (hm : c.inner.Goes I R C m) :
    (evaluatorIn c).Goes I R C (evaluatorIn { c with inner := m }) where
  eval n e isHead :=
    (composed_evaluate (t := {}) e Means.hereditary_all (Means.expression_all n) trivial
      isHead).goes hK c m hm
  exec _ _ _ :=
    (composed_execute (t := {}) Means.hereditary_all trivial trivial).goes hK c m hm
  bind n v e mode :=
    (composed_bindPattern (t := {}) e v mode Means.hereditary_all (Means.expression_all n)
      (fun _ _ => trivial) trivial).goes hK c m hm
  call f this args := callValue_goes hK f this args c m hm
  construct f args newTarget :=
    (composed_constructValue (u := {}) args newTarget Means.hereditary_all trivial f).goes hK c m hm

/-- From states of one kind the machine goes through states that are led to. -/
theorem evaluator_goes (source : String) (wantsText : Bool) (levels : Nat) :
    (evaluator source wantsText levels).Goes I R C (evaluator source wantsText levels) := by
  induction levels with
  | zero =>
    have hself {α : Type} (w : World) (hI : I w) :
        (Course.broke (.fault .nestingTooDeep) w : Course α).Goes (R w) C
          (.broke (.fault .nestingTooDeep) w) := .broke _ (hK.operates hI (.refl w))
    exact ⟨fun _ _ _ => hself, fun _ _ _ => hself, fun _ _ _ _ => hself, fun _ _ _ => hself,
      fun _ _ _ => hself⟩
  | succ levels ih =>
    exact evaluatorIn_goes hK
      (c := (contextOver source wantsText levels _)) ih

end

/-- Whatever is run ends in a state in which `this` is the same wherever it was decided. -/
theorem keepsThis_of_composed {α σ : Type} {t : Targets} {y : Action α} (hy : y.Composed .all t)
    {c : Context} {wantsText : Bool} {levels : Nat}
    (hc : c.inner = evaluator c.source wantsText levels) (w : World) (host : Host σ) (s : σ) :
    w.KeepsThis ((y c w).drive host s).1.world := by
  have hgoes := hy.goes leads_keepsThis c c.inner
    (hc ▸ evaluator_goes leads_keepsThis c.source wantsText levels) w trivial
  rcases hgoes.drive host s with ⟨-, hkeeps⟩ | ⟨_, _, -, hfalse⟩
  · exact hkeeps
  · exact hfalse.elim

end Stepper.Execution

namespace Stepper.Machine.Action

open Syntax

variable {w : World} {e g : ScopeRef} {f parent : Ref} {args : List Value} {c : Context}

/-- A call of the constructor of `parent`, made in code of a constructor of `f` whose scope is
`e`. -/
structure CallsSuper (w : World) (g e : ScopeRef) (f parent : Ref) : Prop where
  scope : w.scopes.functionScope g = e
  extended : extendedBy w.heap (w.scopes.get e) = some (f, parent)
  callable : w.heap.isCallable (.object parent) = true

/-- The new object that the extended constructor is to make. -/
def makeParent (w : World) (e : ScopeRef) (f parent : Ref) (args : List Value) : Action Value :=
  construct (.object parent) args (.object ((w.scopes.get e).newTarget.getD f))

theorem superConstruct_of_calls (h : CallsSuper w g e f parent) :
    superConstruct args g c w =
      (decideThis e (makeParent w e f parent args) >>= takeOver f) c w := by
  rw [superConstruct_eq]
  change superCall w.heap (w.scopes.get (w.scopes.functionScope g)) (w.scopes.functionScope g) args
    c w = _
  unfold superCall makeParent
  rw [h.scope, h.extended]
  dsimp only
  rw [h.callable]
  rfl

/-- A call that is made when `this` is decided runs nothing. -/
theorem superConstruct_of_decided (h : CallsSuper w g e f parent)
    (hdecided : (w.scopes.get e).this.isSome = true) :
    superConstruct args g c w = .broke decidedTwice w := by
  rw [superConstruct_of_calls h]
  change (decideThis e _ c w).bind _ = _
  rw [decideThis_eq, if_pos hdecided]
  rfl

theorem superConstruct_of_undecided (h : CallsSuper w g e f parent)
    (hnone : (w.scopes.get e).this = none) :
    superConstruct args g c w = (makeParent w e f parent args c w).bind fun this v =>
      takeOver f this c (v.withThis e this) := by
  rw [superConstruct_of_calls h]
  change (decideThis e _ c w).bind _ = _
  rw [decideThis_eq, if_neg (by simp [hnone]), Course.bind_assoc]
  rfl

/-- Before it is decided `this` cannot be read, from wherever it is looked for. -/
theorem this_of_undecided (hg : w.scopes.functionScope g = e)
    (hnone : (w.scopes.get e).this = none) :
    this g c w = .broke (.raised .referenceError ScopeError.noThis.message) w := by
  have hread : w.scopes.this g = .error .noThis := by
    unfold Scopes.this
    rw [hg, hnone]
  unfold this
  rw [hread]
  rfl

theorem this_of_decided {a : Value} (hg : w.scopes.functionScope g = e)
    (ha : (w.scopes.get e).this = some a) : this g c w = .done a w := by
  have hread : w.scopes.this g = .ok a := by
    unfold Scopes.this
    rw [hg, ha]
  unfold this
  rw [hread]

/-- The constructor of a derived class begins in a scope of its own in which `this` is not decided.
If it gives no object, what it makes is what `this` is then. -/
theorem constructClosure_of_derived {k : Closure} {newTarget : Value} (hnew : refusesNew k = false)
    (hderived : k.isDerived = true) :
    ∃ e v, callScope f k none newTarget.ref? c w = .done e v ∧ (v.scopes.get e).this = none ∧
      constructClosure f k args newTarget c w = (invoke k e args >>= constructed e) c v := by
  refine ⟨_, _, rfl, ?_, ?_⟩
  · simp [Scopes.get, Array.getD_eq_getD_getElem?]
  · rw [constructClosure_eq, hnew]
    unfold enterConstruct
    rw [hderived]
    rfl

end Stepper.Machine.Action

namespace Stepper.Execution

open Machine Machine.Action

/-- What `this` is in the scope of a constructor, once it has been decided there. -/
structure DecidedForGood (c : Context) (w : World) (e : ScopeRef) (a : Value) : Prop where
  /-- It is read as that. -/
  read : ∀ g, w.scopes.functionScope g = e → this g c w = .done a w
  /-- Whatever is run from now on, it is that at the end. -/
  kept : ∀ {α : Type} (y : Action α), y.Composed .all {} → ∀ {σ : Type} (h : Host σ) (s : σ),
    (((y c w).drive h s).1.world.scopes.get e).this = some a
  /-- The extended constructor is not called any more. -/
  refused : ∀ g f parent args, CallsSuper w g e f parent →
    superConstruct args g c w = .broke decidedTwice w

theorem decidedForGood {c : Context} {wantsText : Bool} {levels : Nat}
    (hc : c.inner = evaluator c.source wantsText levels) {w : World} {e : ScopeRef}
    (he : e.index < w.scopes.all.size) {a : Value} (ha : (w.scopes.get e).this = some a) :
    DecidedForGood c w e a where
  read g hg := this_of_decided hg ha
  kept _ hy _ host s := (keepsThis_of_composed hy hc w host s).this e a he ha
  refused _ _ _ _ h := superConstruct_of_decided h (by rw [ha]; rfl)

/-- A call of the extended constructor that is made before `this` is decided lets that constructor
run first. If it comes through, `this` is the object that it gave, whatever `this` has become in the
meantime; that object is given the fields of the class; and from then on `this` is decided for good.
-/
theorem super_decides_this {σ : Type} {c : Context} {wantsText : Bool} {levels : Nat}
    (hc : c.inner = evaluator c.source wantsText levels) {w v : World} {g e : ScopeRef}
    {f parent : Ref} (he : e.index < w.scopes.all.size) (hcall : CallsSuper w g e f parent)
    (hnone : (w.scopes.get e).this = none) {args : List Value} (host : Host σ) {s t : σ}
    (hrun : (superConstruct args g c w).drive host s = (.done () v, t)) :
    ∃ r u t', (makeParent w e f parent args c w).drive host s = (.done (.object r) u, t') ∧
      (initializeFields f r c (u.withThis e (.object r))).drive host t' = (.done () v, t) ∧
      DecidedForGood c (u.withThis e (.object r)) e (.object r) ∧
      DecidedForGood c v e (.object r) := by
  rw [superConstruct_of_undecided hcall hnone] at hrun
  have hmade := keepsThis_of_composed (y := makeParent w e f parent args) (t := {})
    (composed_construct ..) hc w host s
  generalize hparent : (makeParent w e f parent args c w).drive host s = p at hmade
  obtain ⟨out, t'⟩ := p
  cases out with
  | broke i u =>
    rw [Course.drive_bind_of_broke hparent] at hrun
    cases hrun
  | done this u =>
    rw [Course.drive_bind_of_done hparent] at hrun
    cases this with
    | object r =>
      have he' : e.index < u.scopes.all.size := Nat.lt_of_lt_of_le he hmade.evolves.scopes.size
      have hthis := u.this_withThis (a := .object r) he'
      have hfields := keepsThis_of_composed (composed_initializeFields (t := {}) f r) hc
        (u.withThis e (.object r)) host t'
      have hrun' : (initializeFields f r c (u.withThis e (.object r))).drive host t' =
        (.done () v, t) := hrun
      rw [hrun'] at hfields
      have hlt : e.index < (u.withThis e (.object r)).scopes.all.size :=
        Nat.lt_of_lt_of_le he' (u.steps_withThis e (.object r)).scopes.size
      refine ⟨r, u, t', rfl, hrun', decidedForGood hc hlt hthis, decidedForGood hc ?_
        (hfields.this e _ hlt hthis)⟩
      exact Nat.lt_of_lt_of_le hlt hfields.evolves.scopes.size
    | _ => cases hrun

end Stepper.Execution
