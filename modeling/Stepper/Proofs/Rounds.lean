import Stepper.Proofs.Declaring
import Stepper.Proofs.Transcript

/-!
The rounds of a `for` statement. What the statement repeats is one action, from the scope of a round
to the scope of the next one: the test, the body, a new scope and the step to it. So a run of the
statement is a chain of rounds, and what holds of each round's scope is shown from one round to the
next. The head declares names in a scope of its own, each round has a scope with copies, and all of
them lie side by side in the scope of the statement.
-/
namespace Stepper.Machine

open Syntax

variable {α β σ : Type}

theorem Course.drive_bind_iff {x : Course α} {f : α → World → Course β} {h : Host σ} {s t : σ} {b : β}
    {v : World} : (x.bind f).drive h s = (.done b v, t) ↔
      ∃ a u r, x.drive h s = (.done a u, r) ∧ (f a u).drive h r = (.done b v, t) := by
  constructor
  · intro hdrive
    rcases hx : x.drive h s with ⟨a | i, r⟩
    · rw [drive_bind_of_done hx] at hdrive
      exact ⟨_, _, _, rfl, hdrive⟩
    · rw [drive_bind_of_broke hx] at hdrive
      cases hdrive
  · rintro ⟨a, u, r, hx, hf⟩
    rw [drive_bind_of_done hx, hf]

/-- A new scope inside another, with copies of some bindings of a third and nothing else. -/
structure World.Renews (w : World) (from_ parent : ScopeRef) (names : List String)
    (next : ScopeRef) (v : World) : Prop where
  fresh : next.index = w.scopes.all.size
  heap : v.heap = w.heap
  others : w.scopes.Evolves v.scopes ∧
    ∀ f x, f.index < w.scopes.all.size → v.scopes.binding? f x = w.scopes.binding? f x
  parent : v.scopes.parent? next = some parent
  copies : ∀ x ∈ names, v.scopes.binding? next x = w.scopes.binding? from_ x
  nothingElse : ∀ x, x ∉ names → v.scopes.binding? next x = none

theorem Scopes.binds_of_binding {s : Scopes} {e : ScopeRef} {x : String} {b : Binding}
    (h : s.binding? e x = some b) : s.Binds e x := Option.isSome_of_eq_some h

theorem Scopes.get_alloc_self (s : Scopes) (scope : Scope) :
    (s.alloc scope).2.get (s.alloc scope).1 = scope := by
  simp [get, alloc, Array.getD_eq_getD_getElem?]

theorem Scopes.parent?_alloc (s : Scopes) {scope : Scope} {p : ScopeRef} (h : scope.parent = some p)
    (hp : p.index < s.all.size) : (s.alloc scope).2.parent? (s.alloc scope).1 = some p := by
  rw [parent?, get_alloc_self, h]
  exact Option.filter_eq_some_iff.mpr ⟨rfl, decide_eq_true hp⟩

/-- The bindings that belong to a round. -/
def roundBindings (old : OrderedMap String Binding) (names : List String) :
    OrderedMap String Binding :=
  OrderedMap.ofList (names.filterMap fun n => (old.get? n).map fun b => (n, b))

theorem get?_roundBindings (old : OrderedMap String Binding) (names : List String) (x : String) :
    (roundBindings old names).get? x = if x ∈ names then old.get? x else none := by
  unfold roundBindings
  induction names using List.reverseRecOn with
  | nil => rfl
  | append_singleton names n ih =>
    rw [List.filterMap_append, List.filterMap_cons, List.filterMap_nil]
    cases hn : old.get? n with
    | none =>
      rw [Option.map_none, List.append_nil, ih]
      grind
    | some b =>
      rw [Option.map_some, OrderedMap.ofList_append_singleton, OrderedMap.get?_set, ih]
      grind

namespace Action

theorem roundScope_renews (from_ : ScopeRef) {parent : ScopeRef} {names : List String}
    (hnames : names ≠ []) (c : Context) {w : World} (hparent : parent.index < w.scopes.all.size) :
    ∃ next v, roundScope from_ parent names c w = .done next v ∧
      w.Renews from_ parent names next v := by
  let scope : Scope :=
    { parent := some parent, bindings := roundBindings (w.scopes.get from_).bindings names }
  refine ⟨(w.scopes.alloc scope).1, ⟨w.heap, (w.scopes.alloc scope).2, w.depth⟩, ?_, ?_⟩
  · have hempty : names.isEmpty = false := by simpa using hnames
    simp only [roundScope, hempty]
    rfl
  have hget (x) : (w.scopes.alloc scope).2.binding? (w.scopes.alloc scope).1 x =
      if x ∈ names then w.scopes.binding? from_ x else none := by
    unfold Scopes.binding?
    rw [Scopes.get_alloc_self]
    exact get?_roundBindings _ _ x
  exact
    { fresh := rfl
      heap := rfl
      others := ⟨w.scopes.evolves_alloc scope, fun f x hf => w.scopes.binding?_alloc scope hf x⟩
      parent := w.scopes.parent?_alloc rfl hparent
      copies := fun x hx => (hget x).trans (if_pos hx)
      nothingElse := fun x hx => (hget x).trans (if_neg hx) }

end Action

/-! ### Rounds -/

/-- What a `for` statement repeats once its head has been run. -/
structure ForLoop where
  condition : Option Node
  body : Node
  increment : Option Node
  /-- The scope of the statement itself. -/
  around : ScopeRef
  labels : List String
  /-- The names that are new in each round. -/
  names : List String

/-- The scope that a round works in, and the state that the machine and its host are in. -/
structure Moment (σ : Type) where
  scope : ScopeRef
  world : World
  host : σ

namespace ForLoop

open Machine.Action

section

variable (L : ForLoop) (round : ScopeRef)

def test : Action Bool := match L.condition with
  | some c => do pure (← eval c round).truth
  | none => pure true

def step : Action Unit := match L.increment with
  | some i => do let _ ← eval i round
  | none => pure ()

/-- One round; where the loop goes on, the scope of the next. -/
def turn : Action (ScopeRef ⊕ Unit) := do
  if !(← L.test round) then return .inr ()
  if !(← execBody L.body round L.labels) then return .inr ()
  let next ← roundScope round L.around L.names
  L.step next
  return .inl next

end

theorem execFor_eq (n : Node) (e : ScopeRef) (labels : List String) : execFor n e labels = (do
    let body ← part (n.child? .body)
    let head ← childScope e
    let names ← execForHead (n.child? .initializer) head
    let first ← roundScope head e names
    repeating first (turn
      { condition := Node.unwrapClause (n.child? .condition), body
        increment := n.child? .increment, around := e, labels, names }) : Action Unit) := by
  unfold execFor turn test step
  cases Node.unwrapClause (n.child? .condition) with
  | none => cases n.child? .increment <;> simp only [bind_assoc] <;> rfl
  | some c => cases n.child? .increment <;> simp only [bind_assoc] <;> rfl

theorem roundScope_done (from_ parent : ScopeRef) (names : List String) (c : Context) (w : World) :
    ∃ next v, roundScope from_ parent names c w = .done next v := by
  unfold roundScope
  split
  · exact ⟨_, _, rfl⟩
  · exact ⟨_, _, rfl⟩

/-- A body of a loop ends by itself, by a `continue` or by a `break` of the loop; whether the loop
goes on. -/
inductive EndsBody (labels : List String) : Outcome Unit → Bool → World → Prop
  | byItself (w : World) : EndsBody labels (.done () w) true w
  | continued {label : Option String} (h : owns labels label = true) (w : World) :
    EndsBody labels (.broke (.continued label) w) true w
  | left {label : Option String} (h : owns labels label = true) (w : World) :
    EndsBody labels (.broke (.left label) w) false w

/-- What the end of a body says of its loop. -/
def goesOnAfter (labels : List String) : Except Interrupt Unit → Action Bool
  | .ok _ => pure true
  | .error (.left label) => if owns labels label then pure false else interrupt (.left label)
  | .error (.continued label) =>
    if owns labels label then pure true else interrupt (.continued label)
  | .error i => interrupt i

theorem execBody_eq (body : Node) (e : ScopeRef) (labels : List String) (c : Context) (w : World) :
    execBody body e labels c w =
      (exec body e c w).attempt.bind fun r v => goesOnAfter labels r c v := by
  refine congrArg (exec body e c w).attempt.bind (funext fun r => ?_)
  cases r with
  | ok _ => rfl
  | error i => cases i <;> rfl

theorem goesOnAfter_iff {labels : List String} {c : Context} {h : Host σ} {u v : World} {r t : σ}
    {i : Interrupt} {goesOn : Bool} :
    (goesOnAfter labels (.error i) c u).drive h r = (.done goesOn v, t) ↔
      r = t ∧ EndsBody labels (.broke i u) goesOn v := by
  constructor
  · intro hdone
    cases i with
    | left label =>
      by_cases howns : owns labels label = true
      · simp only [goesOnAfter, howns, if_true] at hdone
        cases hdone
        exact ⟨rfl, .left howns _⟩
      · simp only [goesOnAfter, howns] at hdone
        cases hdone
    | continued label =>
      by_cases howns : owns labels label = true
      · simp only [goesOnAfter, howns, if_true] at hdone
        cases hdone
        exact ⟨rfl, .continued howns _⟩
      · simp only [goesOnAfter, howns] at hdone
        cases hdone
    | _ => cases hdone
  · rintro ⟨rfl, hends⟩
    cases hends with
    | continued howns => simp only [goesOnAfter, howns]; rfl
    | left howns => simp only [goesOnAfter, howns]; rfl

theorem drive_execBody_iff {body : Node} {e : ScopeRef} {labels : List String} {c : Context}
    {h : Host σ} {w v : World} {s t : σ} {goesOn : Bool} :
    (execBody body e labels c w).drive h s = (.done goesOn v, t) ↔
      ∃ o, (exec body e c w).drive h s = (o, t) ∧ EndsBody labels o goesOn v := by
  rw [execBody_eq]
  rcases hbody : (exec body e c w).drive h s with ⟨_ | ⟨i, u⟩, r⟩
  · rw [Course.drive_bind_of_done (Course.drive_attempt_of_done hbody)]
    constructor
    · intro hdone
      cases hdone
      exact ⟨_, rfl, .byItself _⟩
    · rintro ⟨_, ho, hends⟩
      cases ho
      cases hends
      rfl
  · rw [Course.drive_bind_of_done (Course.drive_attempt_of_broke hbody), goesOnAfter_iff]
    constructor
    · rintro ⟨rfl, hends⟩
      exact ⟨_, rfl, hends⟩
    · rintro ⟨_, ho, hends⟩
      cases ho
      exact ⟨rfl, hends⟩

section

variable (L : ForLoop) (c : Context) (h : Host σ)

/-- The round that begins here goes on to the next. -/
def Turns (a b : Moment σ) : Prop :=
  (L.turn a.scope c a.world).drive h a.host = (.done (.inl b.scope) b.world, b.host)

/-- The test of the round that begins here is met, and its body ends without leaving more than the
loop; whether the loop goes on. -/
structure BodyEnds (a : Moment σ) (goesOn : Bool) (b : Moment σ) : Prop where
  scope : b.scope = a.scope
  run : ∃ v t o, (L.test a.scope c a.world).drive h a.host = (.done true v, t) ∧
    (exec L.body a.scope c v).drive h t = (o, b.host) ∧ EndsBody L.labels o goesOn b.world

/-- From the end of a body to the next round: a new scope is made, and the step is taken in it. -/
def Advances (a b : Moment σ) : Prop :=
  ∃ v, roundScope a.scope L.around L.names c a.world = .done b.scope v ∧
    (L.step b.scope c v).drive h a.host = (.done () b.world, b.host)

/-- After this number of rounds the next one begins. -/
inductive Rounds (first : Moment σ) : Nat → Moment σ → Prop
  | first : Rounds first 0 first
  | next {k : Nat} {a b : Moment σ} (ha : Rounds first k a) (hb : L.Turns c h a b) :
      Rounds first (k + 1) b

end

variable {L : ForLoop} {c : Context} {h : Host σ} {a b m first : Moment σ} {k : Nat} {goesOn : Bool}

theorem turns_iff : L.Turns c h a b ↔ ∃ m, L.BodyEnds c h a true m ∧ L.Advances c h m b := by
  -- the round after its test, and after its body
  let afterBody (goesOn : Bool) : Action (ScopeRef ⊕ Unit) :=
    if !goesOn then return .inr ()
    else do
      let next ← roundScope a.scope L.around L.names
      L.step next
      return .inl next
  let afterTest (met : Bool) : Action (ScopeRef ⊕ Unit) :=
    if !met then return .inr () else execBody L.body a.scope L.labels >>= afterBody
  have hturn : L.turn a.scope c a.world =
      (L.test a.scope c a.world).bind fun met v => afterTest met c v := rfl
  rw [Turns, hturn, Course.drive_bind_iff]
  constructor
  · rintro ⟨met, v, t, htest, hrest⟩
    cases met with
    | false => cases hrest
    | true =>
      obtain ⟨goesOn, u, r, hbody, hrest⟩ := Course.drive_bind_iff.mp hrest
      cases goesOn with
      | false => cases hrest
      | true =>
        obtain ⟨next, u', hnext⟩ := roundScope_done a.scope L.around L.names c u
        obtain ⟨next', u'', r', hscope, hstep⟩ := Course.drive_bind_iff.mp hrest
        rw [hnext] at hscope
        cases hscope
        obtain ⟨_, x, y, hstep, hdone⟩ := Course.drive_bind_iff.mp hstep
        cases hdone
        obtain ⟨o, hexec, hends⟩ := drive_execBody_iff.mp hbody
        exact ⟨⟨a.scope, u, r⟩, ⟨rfl, v, t, o, htest, hexec, hends⟩, u', hnext, hstep⟩
  · rintro ⟨⟨scope, u, r⟩, ⟨rfl, v, t, o, htest, hexec, hends⟩, u', hnext, hstep⟩
    have hbody := drive_execBody_iff.mpr ⟨o, hexec, hends⟩
    refine ⟨true, v, t, htest, Course.drive_bind_iff.mpr ⟨true, u, r, hbody, ?_⟩⟩
    refine Course.drive_bind_iff.mpr ⟨b.scope, u', r, by rw [hnext]; rfl, ?_⟩
    exact Course.drive_bind_iff.mpr ⟨(), b.world, b.host, hstep, rfl⟩

theorem Turns.drive (hab : L.Turns c h a b) (fuel : Nat) :
    (loop L.turn (fuel + 1) a.scope c a.world).drive h a.host =
      (loop L.turn fuel b.scope c b.world).drive h b.host := by
  rw [loop_succ]
  exact Course.drive_bind_of_done hab _

/-- What the loop comes to is what it comes to from any of its rounds on. -/
theorem Rounds.drive (ha : L.Rounds c h first k a) (fuel : Nat) :
    (loop L.turn (fuel + k) first.scope c first.world).drive h first.host =
      (loop L.turn fuel a.scope c a.world).drive h a.host := by
  induction ha generalizing fuel with
  | first => rfl
  | @next k a b ha hab ih =>
    rw [← hab.drive, ← ih, Nat.add_assoc, Nat.add_comm 1 k]

/-! ### The scope of a round and its head -/

section

variable {K : Means} {t : Targets} (hK : K.Unbound) (round : ScopeRef)

include hK

theorem composed_test : (L.test round).Composed K t := by
  unfold test
  split
  · exact .bind (composed_eval _ (hK.expression _)) fun _ => composed_pure _
  · exact composed_pure _

theorem composed_step : (L.step round).Composed K t := by
  unfold step
  split
  · exact .bind (composed_eval _ (hK.expression _)) fun _ => composed_pure _
  · exact composed_pure _

end

section

variable (hc : c.inner.Obeys fun w x => x.Evolves w)

include hc

theorem BodyEnds.evolves (h' : L.BodyEnds c h a goesOn m) : a.world.Evolves m.world := by
  obtain ⟨v, t, o, htest, hbody, hends⟩ := h'.run
  have hav : a.world.Evolves ((L.test a.scope c a.world).drive h a.host).1.world :=
    ((composed_test Means.unbound_all a.scope).evolves hc a.world).drive h a.host
  have hvm : v.Evolves ((exec L.body a.scope c v).drive h t).1.world :=
    (hc.exec L.body a.scope [] v).drive h t
  rw [htest] at hav
  rw [hbody] at hvm
  have hworld : o.world = m.world := by cases hends <;> rfl
  exact hav.trans (hworld ▸ hvm)

theorem step_evolves (round : ScopeRef) (w : World) : (L.step round c w).Evolves w :=
  (composed_step Means.unbound_all round).evolves hc w

end

/-- A round's own scope lies in the scope of the statement, beside the scope of its head, and binds
the names that are new in each round. -/
structure Own (L : ForLoop) (head : ScopeRef) (a : Moment σ) : Prop where
  lt : a.scope.index < a.world.scopes.all.size
  around : L.around.index < head.index
  later : head.index < a.scope.index
  parent : a.world.scopes.parent? a.scope = some L.around
  binds : ∀ x ∈ L.names, a.world.scopes.Binds a.scope x

theorem Own.evolves {head : ScopeRef} (ha : L.Own head a) (hscope : m.scope = a.scope)
    (hm : a.world.Evolves m.world) : L.Own head m where
  lt := hscope ▸ Nat.lt_of_lt_of_le ha.lt hm.scopes.size
  around := ha.around
  later := hscope ▸ ha.later
  parent := by rw [hscope, hm.scopes.parent? ha.lt, ha.parent]
  binds x hx := hscope ▸ hm.scopes.binds (ha.binds x hx)

/-- A new scope with copies of a scope that binds the names is one more round's own. -/
theorem own_of_renews {head from_ next : ScopeRef} {w v : World}
    (hnext : w.Renews from_ L.around L.names next v) (haround : L.around.index < head.index)
    (hhead : head.index < w.scopes.all.size) (hbinds : ∀ x ∈ L.names, w.scopes.Binds from_ x)
    (s : σ) : L.Own head ⟨next, v, s⟩ where
  lt := Scopes.lt_of_parent? hnext.parent
  around := haround
  later := hnext.fresh ▸ hhead
  parent := hnext.parent
  binds x hx := by
    obtain ⟨b, hb⟩ := Option.isSome_iff_exists.mp (hbinds x hx)
    exact Scopes.binds_of_binding ((hnext.copies x hx).trans hb)

theorem Advances.renews {head : ScopeRef} (hm : L.Own head m) (hnames : L.names ≠ [])
    (hb : L.Advances c h m b) : ∃ v, m.world.Renews m.scope L.around L.names b.scope v ∧
      (L.step b.scope c v).drive h m.host = (.done () b.world, b.host) := by
  obtain ⟨v, hscope, hstep⟩ := hb
  have haround : L.around.index < m.world.scopes.all.size :=
    Nat.lt_trans hm.around (Nat.lt_trans hm.later hm.lt)
  obtain ⟨next, v', hdone, hrenews⟩ :=
    roundScope_renews m.scope hnames c (w := m.world) haround
  rw [hscope] at hdone
  cases hdone
  exact ⟨v, hrenews, hstep⟩

theorem Rounds.own {head : ScopeRef} (hc : c.inner.Obeys fun w x => x.Evolves w)
    (hnames : L.names ≠ []) (hfirst : L.Own head first) (ha : L.Rounds c h first k a) :
    L.Own head a := by
  induction ha with
  | first => exact hfirst
  | @next k a b ha hab ih =>
    obtain ⟨m, hm, hb⟩ := turns_iff.mp hab
    have hown := ih.evolves hm.scope (hm.evolves hc)
    obtain ⟨v, hrenews, hstep⟩ := hb.renews hown hnames
    have hlt := Nat.lt_trans hown.later hown.lt
    have hv := (step_evolves hc (L := L) b.scope v).drive h m.host
    rw [hstep] at hv
    exact (own_of_renews hrenews hown.around hlt hown.binds b.host).evolves rfl hv

/-- The head of a `for` statement has been run in a scope of its own, and the first round begins. -/
structure Enters (L : ForLoop) (n : Node) (labels : List String) (c : Context) (h : Host σ)
    (w : World) (s : σ) (head : ScopeRef) (first : Moment σ) : Prop where
  condition : L.condition = Node.unwrapClause (n.child? .condition)
  body : n.child? .body = some L.body
  increment : L.increment = n.child? .increment
  labels : L.labels = labels
  run : ∃ u v, childScope L.around c w = .done head u ∧
    (execForHead (n.child? .initializer) head c u).drive h s = (.done L.names v, first.host) ∧
    roundScope head L.around L.names c v = .done first.scope first.world

variable {n i : Node} {labels : List String} {w : World} {s : σ} {head : ScopeRef}

theorem Enters.drive (henter : L.Enters n labels c h w s head first) :
    (execFor n L.around labels c w).drive h s =
      (loop L.turn maxRounds first.scope c first.world).drive h first.host := by
  obtain ⟨u, v, hhead, hnames, hfirst⟩ := henter.run
  have hloop : L = ⟨Node.unwrapClause (n.child? .condition), L.body, n.child? .increment, L.around,
      labels, L.names⟩ := by
    rw [← henter.condition, ← henter.increment, ← henter.labels]
  rw [execFor_eq, henter.body]
  change ((childScope L.around c w).bind fun head u =>
    (execForHead (n.child? .initializer) head c u).bind fun names v =>
      (roundScope head L.around names c v).bind fun first u' => loop (turn
        ⟨Node.unwrapClause (n.child? .condition), L.body, n.child? .increment, L.around, labels,
          names⟩) maxRounds first c u').drive h s = _
  rw [hhead, Course.bind_done, Course.drive_bind_of_done hnames, hfirst, Course.bind_done, ← hloop]

/-- What the statement comes to is what its loop comes to from any of its rounds on. -/
theorem Enters.drive_of_rounds (henter : L.Enters n labels c h w s head first)
    (ha : L.Rounds c h first k a) (hk : k ≤ maxRounds) :
    (execFor n L.around labels c w).drive h s =
      (loop L.turn (maxRounds - k) a.scope c a.world).drive h a.host := by
  rw [henter.drive, ← ha.drive, Nat.sub_add_cancel hk]

theorem execForHead_lexical (hi : i.IsLexical c.source) (head : ScopeRef) (u : World) :
    execForHead (some i) head c u =
      (execDeclaration i head c u).bind fun _ v => .done (i.declaredNames c.source) v := by
  have hdeclaration : i.kind.isDeclaration = true := by rw [hi.kind]; rfl
  have hlexical : (i.kind == .lexicalDeclaration) = true := by rw [hi.kind]; rfl
  simp only [execForHead, hdeclaration, hlexical]
  rfl

theorem childScope_index {e : ScopeRef} {u : World} (hhead : childScope e c w = .done head u) :
    head.index = w.scopes.all.size ∧ head.index < u.scopes.all.size := by
  cases hhead
  exact ⟨rfl, by simp⟩

/-- A head by `let` or `const` has declared its names, and nothing else, when the first round
begins. -/
theorem Enters.declares (henter : L.Enters n labels c h w s head first)
    (hinit : n.child? .initializer = some i) (hi : i.IsLexical c.source)
    (hc : c.inner.Declares c.source) :
    L.names = i.declaredNames c.source ∧ ∃ u v, childScope L.around c w = .done head u ∧
      u.scopes.Declares (declarationKind (i.declarationWord c.source)) L.names head v.scopes ∧
      roundScope head L.around L.names c v = .done first.scope first.world := by
  obtain ⟨u, v, hhead, hnames, hfirst⟩ := henter.run
  rw [hinit, execForHead_lexical hi, Course.drive_bind_iff] at hnames
  obtain ⟨_, v', t, hrun, hdone⟩ := hnames
  simp only [Course.drive_done, Prod.mk.injEq, Outcome.done.injEq] at hdone
  obtain ⟨⟨hnames, rfl⟩, -⟩ := hdone
  have hlt := (childScope_index hhead).2
  rw [← hnames] at hfirst ⊢
  exact ⟨rfl, u, v', hhead, (declares_execDeclaration hi c rfl hc u hlt).drive h hrun, hfirst⟩

theorem Enters.own (henter : L.Enters n labels c h w s head first)
    (hinit : n.child? .initializer = some i) (hi : i.IsLexical c.source)
    (hc : c.inner.Declares c.source) (hnames : L.names ≠ [])
    (haround : L.around.index < w.scopes.all.size) : L.Own head first := by
  obtain ⟨-, u, v, hhead, hdeclares, hfirst⟩ := henter.declares hinit hi hc
  have hbinds : ∀ x ∈ L.names, v.scopes.Binds head x := fun x hx =>
    Scopes.binds_of_binding (hdeclares.declared x hx).choose_spec
  obtain ⟨hindex, hlt⟩ := childScope_index hhead
  have hv := Nat.lt_of_lt_of_le hlt hdeclares.size
  obtain ⟨next, v', hdone, hrenews⟩ := roundScope_renews head hnames c (w := v)
    (Nat.lt_trans (hindex ▸ haround) hv)
  rw [hfirst] at hdone
  cases hdone
  exact own_of_renews hrenews (hindex ▸ haround) hv hbinds first.host

end ForLoop
end Stepper.Machine

/-! ### Declared names are bound names -/

namespace Stepper.Machine.ForLoop

open Syntax Machine.Action

variable {σ : Type} {L : ForLoop} {c : Context} {h : Host σ} {a m first : Moment σ} {k : Nat}
  {goesOn : Bool} {n i : Node} {labels : List String} {w : World} {s : σ} {head : ScopeRef}

/-- Wherever the scope of a round is made, the scope before it binds the names of the head. -/
theorem Enters.binds (henter : L.Enters n labels c h w s head first)
    (hinit : n.child? .initializer = some i) (hi : i.IsLexical c.source)
    (hdeclares : c.inner.Declares c.source) (hevolves : c.inner.Obeys fun w x => x.Evolves w)
    (haround : L.around.index < w.scopes.all.size) (ha : L.Rounds c h first k a)
    (hm : L.BodyEnds c h a goesOn m) : ∀ x ∈ L.names, m.world.scopes.Binds m.scope x := by
  intro x hx
  have hnames : L.names ≠ [] := List.ne_nil_of_mem hx
  have hfirst := henter.own hinit hi hdeclares hnames haround
  exact ((ha.own hevolves hnames hfirst).evolves hm.scope (hm.evolves hevolves)).binds x hx

end Stepper.Machine.ForLoop

namespace Stepper.Execution

open Syntax Machine Machine.Action Builtin

/-- The names of a target are what it declares. Whenever a target is bound in a declaration, or a
list of parameters with no rest but at its end is bound to arguments, its names have values in the
scope; everything else there, and everything in the other scopes, has at most been assigned to. So
the names of a `let` or `const` declaration can be read when it has been run; and those in the head
of a `for` statement are bound by each scope that the scope of another round is made from. -/
theorem declared_names_are_bound {σ : Type} {c : Context} {wantsText : Bool} {levels : Nat}
    (hc : c.inner = evaluator c.source wantsText levels) {w : World} {e : ScopeRef}
    (he : e.index < w.scopes.all.size) (h : Host σ) :
    (∀ n v kind, n.isTarget = true → kind ≠ .var →
      (bindPattern n v e (.declare kind) c w).Ends fun _ u =>
        w.scopes.Declares kind (n.boundNames c.source) e u.scopes) ∧
    (∀ ps args, (∀ p ∈ ps, p.isTarget = true) → (∀ p ∈ ps.dropLast, p.kind ≠ .restPattern) →
      (bindParameters ps args e c w).Ends fun _ u =>
        w.scopes.Declares .param (ps.flatMap (Node.boundNames c.source)) e u.scopes) ∧
    (∀ n labels, n.IsLexical c.source → (execute n e labels c w).Ends fun _ u =>
      w.scopes.Declares (declarationKind (n.declarationWord c.source)) (n.declaredNames c.source) e
        u.scopes ∧ ∀ x ∈ n.declaredNames c.source, ∃ v, lookup e x c u = .done v u) ∧
    ∀ (L : ForLoop) n labels i s head first, n.child? .initializer = some i → i.IsLexical c.source →
      L.around = e → L.Enters n labels c h w s head first →
        L.names = i.declaredNames c.source ∧
        (∃ v, roundScope head e L.names c v = .done first.scope first.world ∧
          ∀ x ∈ L.names, v.scopes.Binds head x) ∧
        ∀ k a goesOn m, L.Rounds c h first k a → L.BodyEnds c h a goesOn m →
          ∀ x ∈ L.names, m.world.scopes.Binds m.scope x := by
  have hdeclares : c.inner.Declares c.source := hc ▸ evaluator_declares ..
  have hevolves : c.inner.Obeys fun w x => x.Evolves w := hc ▸ evaluator_evolves ..
  refine ⟨fun n v kind hn hkind => declares_bindPattern hkind hn v c rfl hdeclares w he,
    fun ps args htarget hrest => declares_bindParameters htarget hrest args c rfl hdeclares w he,
    fun n labels hn => ?_, fun L n labels i s head first hinit hi haround henter => ?_⟩
  · have hrun : execute n e labels c w = execDeclaration n e c w := by
      unfold execute
      rw [hn.kind]
    rw [hrun]
    refine (declares_execDeclaration hn c rfl hdeclares w he).imp fun _ u hu => ⟨hu, fun x hx => ?_⟩
    obtain ⟨v, hv⟩ := hu.declared x hx
    exact ⟨v, by rw [lookup, Scopes.read_of_binding hv]⟩
  · subst haround
    obtain ⟨hnames, u, v, -, hdeclared, hfirst⟩ := henter.declares hinit hi hdeclares
    refine ⟨hnames, ⟨v, hfirst, fun x hx => ?_⟩, fun k a goesOn m ha hm =>
      henter.binds hinit hi hdeclares hevolves he ha hm⟩
    obtain ⟨b, hb⟩ := hdeclared.declared x hx
    exact Scopes.binds_of_binding hb

/-- A name in the source. -/
def nameNode (start stop : Nat) : Node := { kind := .identifier, start, stop }

/-- A state with one scope. -/
def oneScope : World := { scopes := ⟨#[{}]⟩ }

/-- The target `[a, ...b]`. -/
def spreadTarget : Node :=
  { kind := .arrayPattern
    children :=
      [{ kind := .token "[", named := false }, nameNode 1 2, { kind := .token ",", named := false },
        { kind := .restPattern, children := [nameNode 7 8] }, { kind := .token "]", named := false }] }

/-- The declaration in `for (let a; ; ) ;`. -/
def letHead : Node :=
  { kind := .lexicalDeclaration, field := some .initializer
    children :=
      [{ kind := .token "let", named := false, field := some .kind, start := 5, stop := 8 },
        { kind := .variableDeclarator
          children := [{ nameNode 9 10 with field := some .name }] }] }

def endlessFor : Node :=
  { kind := .forStatement
    children := [letHead, { kind := .emptyStatement, field := some .body }] }

theorem letHead_lexical : letHead.IsLexical "for (let a; ; ) ;" where
  kind := rfl
  word := by decide
  target d hd hkind t ht := by
    simp only [letHead, List.mem_cons, List.not_mem_nil, or_false] at hd
    rcases hd with rfl | rfl
    · cases hkind
    · cases ht
      rfl

def endlessLoop : ForLoop :=
  { condition := none, body := { kind := .emptyStatement, field := some .body }, increment := none
    around := ⟨0⟩, labels := [], names := ["a"] }

/-- A host that never interferes. -/
def silentHost : Host Unit := { wantsText := false, reply := fun _ s => (.proceed, s) }

/-- The scope of the statement, of its head and of its first round. -/
def firstRound : Moment Unit :=
  { scope := ⟨2⟩
    world := { scopes := ⟨#[{}, { parent := some ⟨0⟩, bindings := [("a", ⟨some .undefined, .let_⟩)] },
      { parent := some ⟨0⟩, bindings := [("a", ⟨some .undefined, .let_⟩)] }]⟩ }
    host := () }

theorem endlessFor_enters : endlessLoop.Enters endlessFor []
    (outermostContext "for (let a; ; ) ;" false) silentHost oneScope () ⟨1⟩ firstRound where
  condition := rfl
  body := rfl
  increment := rfl
  labels := rfl
  run := ⟨_, _, rfl, rfl, rfl⟩

/-- At the target `[a, ...b]` with a text of two characters, and at the head of `for (let a; ; ) ;`.
-/
theorem spreadTarget_declares_a_b :
    (spreadTarget.isTarget = true ∧ spreadTarget.boundNames "[a, ...b]" = ["a", "b"] ∧
      ∃ u, bindPattern spreadTarget (.text "xy") ⟨0⟩ (.declare .let_)
          (outermostContext "[a, ...b]" false) oneScope = .done () u ∧
        oneScope.scopes.Declares .let_ (spreadTarget.boundNames "[a, ...b]") ⟨0⟩ u.scopes) ∧
    letHead.IsLexical "for (let a; ; ) ;" ∧
    endlessLoop.Enters endlessFor [] (outermostContext "for (let a; ; ) ;" false) silentHost oneScope
      () ⟨1⟩ firstRound ∧
    endlessLoop.names = letHead.declaredNames "for (let a; ; ) ;" ∧
    ∀ k a goesOn m,
      endlessLoop.Rounds (outermostContext "for (let a; ; ) ;" false) silentHost firstRound k a →
      endlessLoop.BodyEnds (outermostContext "for (let a; ; ) ;" false) silentHost a goesOn m →
      ∀ x ∈ endlessLoop.names, m.world.scopes.Binds m.scope x := by
  have hscope : (⟨0⟩ : ScopeRef).index < oneScope.scopes.all.size := Nat.zero_lt_one
  have hpattern := (declared_names_are_bound (c := outermostContext "[a, ...b]" false) rfl hscope
    silentHost).1 spreadTarget (.text "xy") .let_ rfl nofun
  have hloop := (declared_names_are_bound (c := outermostContext "for (let a; ; ) ;" false) rfl hscope
    silentHost).2.2.2 endlessLoop endlessFor [] letHead () ⟨1⟩ firstRound rfl letHead_lexical rfl
      endlessFor_enters
  exact ⟨⟨rfl, rfl, _, rfl, hpattern⟩, letHead_lexical, endlessFor_enters, hloop.1, hloop.2.2⟩

/-- The parameters of `f(...a, b)`. -/
def restBefore : List Node := [{ kind := .restPattern, children := [nameNode 5 6] }, nameNode 8 9]

/-- A rest takes all arguments that are left. What stands behind it in the list is not bound, though
its name is one of those that the list binds. -/
theorem behind_a_rest_nothing_is_bound :
    "b" ∈ restBefore.flatMap (Node.boundNames "f(...a, b)") ∧
    ∃ u, bindParameters restBefore [] ⟨0⟩ (outermostContext "f(...a, b)" false) oneScope =
        .done () u ∧ u.scopes.binding? ⟨0⟩ "b" = none :=
  ⟨by decide, _, rfl, rfl⟩

end Stepper.Execution
