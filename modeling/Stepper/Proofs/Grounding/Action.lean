import Stepper.Machine.Action
import Stepper.Proofs.Composition.Law
import Stepper.Proofs.Grounding.Data

/-!
Grounded states and actions. A state is grounded if all that it holds refers to objects that are
there, and every chain of prototypes ends. A grounded action, given what is known, keeps the state
grounded, takes no object away and gives only what is known then; and whatever is hidden from it
stays hidden. So an array that is being made is still out of reach when it is given its prototype,
although a getter of the program has run since.
-/
namespace Stepper.Machine

open Syntax

variable {α β γ : Type}

@[grind ←] theorem Later.refl (n : Horizon) : Later n n := ⟨Nat.le_refl _, fun _ h => h⟩

@[grind →] theorem Later.trans {n m k : Horizon} (h : Later n m) (h' : Later m k) : Later n k :=
  ⟨Nat.le_trans h.size_le h'.size_le, fun r hr => h'.has r (h.has r hr)⟩

def Interrupt.refs : Interrupt → List Ref
  | .thrown v => Refers.refs v
  | .returned v => Refers.refs v
  | _ => []

instance : Refers Interrupt := ⟨Interrupt.refs⟩

def outcomeRefs [Refers α] : Except Interrupt α → List Ref
  | .ok a => refs a
  | .error i => refs i

instance [Refers α] : Refers (Except Interrupt α) := ⟨outcomeRefs⟩

instance : Refers Realm := ⟨fun r => [r.objectProto, r.functionProto, r.arrayProto, r.textProto,
  r.numberProto, r.booleanProto, r.mapProto, r.setProto, r.dateProto] ++ refs r.errors⟩

section

variable {n : Horizon} [Refers α]

/-- What is thrown is known when its value is. -/
@[grind =] theorem known_thrown {v : Value} : Known n (Interrupt.thrown v) ↔ Known n v := .rfl
@[grind =] theorem known_returned {v : Value} : Known n (Interrupt.returned v) ↔ Known n v := .rfl
@[grind ←] theorem known_raised (kind : ErrorKind) (message : Text) :
    Known n (Interrupt.raised kind message) := known_of_refs rfl
@[grind ←] theorem known_fault (f : Fault) : Known n (Interrupt.fault f) := known_of_refs rfl
@[grind ←] theorem known_left (label : Option String) : Known n (Interrupt.left label) := known_of_refs rfl
@[grind ←] theorem known_continued (label : Option String) :
    Known n (Interrupt.continued label) := known_of_refs rfl
@[grind ←] theorem known_cutShort : Known n Interrupt.cutShort := known_of_refs rfl
@[grind ←] theorem known_stopped : Known n Interrupt.stopped := known_of_refs rfl

/-- An outcome is known when its value is, or else its interrupt. -/
@[grind =] theorem known_ok {a : α} : Known n (.ok a : Except Interrupt α) ↔ Known n a := .rfl
@[grind =] theorem known_error {i : Interrupt} :
    Known n (.error i : Except Interrupt α) ↔ Known n i := .rfl

/-- The realm is known when all its prototypes are. -/
@[grind =] theorem known_realm {r : Realm} : Known n r ↔
    Known n r.objectProto ∧ Known n r.functionProto ∧ Known n r.arrayProto ∧
      Known n r.textProto ∧ Known n r.numberProto ∧ Known n r.booleanProto ∧
      Known n r.mapProto ∧ Known n r.setProto ∧ Known n r.dateProto ∧ Known n r.errors := by
  simp [Known, refs, or_imp, forall_and]

end

/-! ### States -/

/-- How many objects there are. -/
def World.size (w : World) : Nat := w.heap.objects.size

/-- All objects there are, but for some that are hidden. -/
def World.horizon (w : World) (hidden : List Ref) : Horizon := ⟨w.size, hidden⟩

/-- Whether an object is the prototype of another. -/
def Heap.IsProto (h : Heap) (p r : Ref) : Prop := (h.get r).proto = some p

/-- A state that refers to none but the objects that are there. Nothing in it refers to those that
are hidden, not even they themselves, and every chain of prototypes ends. -/
structure World.Grounded (hidden : List Ref) (w : World) : Prop where
  hidden_lt : ∀ r ∈ hidden, r.index < w.size
  heap : Known (w.horizon hidden) w.heap
  scopes : Known (w.horizon hidden) w.scopes
  ends : WellFounded w.heap.IsProto

/-- What is at a reference after a change is what was there or the change of it. -/
theorem Heap.get_modify (h : Heap) (r s : Ref) (f : Object → Object) :
    (h.modify r f).get s = h.get s ∨ (h.modify r f).get s = f (h.get s) := by
  unfold Heap.get Heap.modify
  simp only [Array.getD_eq_getD_getElem?, Array.getElem?_modify]
  split
  · cases h.objects[s.index]? with
    | none => exact .inl rfl
    | some o => exact .inr rfl
  · exact .inl rfl

/-- A new object is at the first free place, and all others stay. -/
theorem Heap.get_alloc_eq_ite (h : Heap) (o : Object) (s : Ref) : (h.alloc o).2.get s =
    if s.index = h.objects.size then o else h.get s := by
  unfold Heap.get Heap.alloc
  simp only [Array.getD_eq_getD_getElem?, Array.getElem?_push]
  split <;> rfl

/-- To change some objects keeps the chains ending if no other object has one of those for its
prototype, and the new prototypes are among the others. -/
theorem Heap.wellFounded_isProto {h h' : Heap} (hends : WellFounded h.IsProto) (new : Ref → Prop)
    (hold : ∀ r, ¬ new r → (h'.get r).proto = (h.get r).proto)
    (hproto : ∀ r p, ¬ new r → h.IsProto p r → ¬ new p)
    (hnew : ∀ r p, new r → h'.IsProto p r → ¬ new p) : WellFounded h'.IsProto := by
  have hothers (r : Ref) (hr : ¬ new r) : Acc h'.IsProto r := by
    induction r using hends.induction with
    | _ r ih =>
      refine ⟨r, fun p hp => ?_⟩
      have hp : h.IsProto p r := (hold r hr).symm.trans hp
      exact ih p hp (hproto r p hr hp)
  refine ⟨fun r => ?_⟩
  by_cases hr : new r
  · exact ⟨r, fun p hp => hothers p (hnew r p hr hp)⟩
  · exact hothers r hr

namespace Later

variable {hidden : List Ref} {i : Nat}

theorem of_le {n : Horizon} (h : n.size ≤ i) : Later n ⟨i, n.hidden⟩ :=
  ⟨h, fun _ hr => ⟨Nat.lt_of_lt_of_le hr.1 h, hr.2⟩⟩

/-- What is new can be hidden. -/
theorem hide : Later ⟨i, hidden⟩ ⟨i + 1, ⟨i⟩ :: hidden⟩ := by
  refine ⟨Nat.le_succ i, fun r hr => ⟨Nat.lt_succ_of_lt hr.1, fun hmem => ?_⟩⟩
  rcases List.mem_cons.mp hmem with rfl | hmem
  · exact Nat.lt_irrefl i hr.1
  · exact hr.2 hmem

theorem reveal (r : Ref) : Later ⟨i, r :: hidden⟩ ⟨i, hidden⟩ :=
  ⟨Nat.le_refl i, fun _ hq => ⟨hq.1, fun hmem => hq.2 (List.mem_cons_of_mem r hmem)⟩⟩

end Later

namespace World.Grounded

variable {hidden : List Ref} {w : World}

/-- Links of a grounded world lead to objects that are not hidden. -/
theorem proto_known (hw : w.Grounded hidden) {r p : Ref} (hp : w.heap.IsProto p r) :
    (w.horizon hidden).Has p :=
  known_ref.mp (known_option.mp (hw.heap.get r).proto p hp)

theorem size_alloc (w : World) (o : Object) :
    World.size ⟨(w.heap.alloc o).2, w.scopes, w.depth⟩ = w.size + 1 := Array.size_push o

theorem size_modify (w : World) (r : Ref) (f : Object → Object) :
    World.size ⟨w.heap.modify r f, w.scopes, w.depth⟩ = w.size := Array.size_modify

/-- What is known stays known when an object is made, also where the new one is hidden. -/
theorem alloc_of_later (hw : w.Grounded hidden) {o : Object} (ho : Known (w.horizon hidden) o)
    {other : List Ref} (hother : ∀ r ∈ other, r.index < w.size + 1)
    (hlater : Later (w.horizon hidden) ⟨w.size + 1, other⟩) :
    World.Grounded other ⟨(w.heap.alloc o).2, w.scopes, w.depth⟩ := by
  have hhorizon : World.horizon ⟨(w.heap.alloc o).2, w.scopes, w.depth⟩ other =
      ⟨w.size + 1, other⟩ := by rw [horizon, size_alloc]
  refine ⟨size_alloc w o ▸ hother, ?_, hhorizon ▸ hw.scopes.mono hlater, ?_⟩
  · rw [hhorizon]
    exact known_push.mpr ⟨Known.mono (a := w.heap.objects) hw.heap hlater, ho.mono hlater⟩
  refine Heap.wellFounded_isProto hw.ends (fun r => r.index = w.heap.objects.size) (fun r hr => ?_)
    (fun r p hr hp => ?_) fun r p hr hp => ?_
  · rw [Heap.get_alloc_eq_ite, if_neg hr]
  · exact Nat.ne_of_lt (hw.proto_known hp).1
  · rw [Heap.IsProto, Heap.get_alloc_eq_ite, if_pos hr] at hp
    exact Nat.ne_of_lt (known_ref.mp (known_option.mp ho.proto p hp)).1

/-- An object that refers to what is known may be made. -/
theorem alloc (hw : w.Grounded hidden) {o : Object} (ho : Known (w.horizon hidden) o) :
    World.Grounded hidden ⟨(w.heap.alloc o).2, w.scopes, w.depth⟩ :=
  hw.alloc_of_later ho (fun r hr => Nat.lt_succ_of_lt (hw.hidden_lt r hr)) (.of_le (Nat.le_succ _))

/-- An object may be made and hidden until its link is set. -/
theorem allocHidden (hw : w.Grounded hidden) {o : Object} (ho : Known (w.horizon hidden) o) :
    World.Grounded (⟨w.size⟩ :: hidden) ⟨(w.heap.alloc o).2, w.scopes, w.depth⟩ := by
  refine hw.alloc_of_later ho (fun r hr => ?_) .hide
  rcases List.mem_cons.mp hr with rfl | hr
  · exact Nat.lt_succ_self _
  · exact Nat.lt_succ_of_lt (hw.hidden_lt r hr)

theorem known_modify {n : Horizon} {h : Heap} (hh : Known n h) {f : Object → Object}
    (hf : ∀ o, Known n o → Known n (f o)) (r : Ref) : Known n (h.modify r f) := by
  refine known_heap.mpr fun o ho => ?_
  obtain ⟨i, hi, rfl⟩ := Array.mem_iff_getElem.mp ho
  have hold := known_heap.mp hh
  simp only [Heap.modify, Array.getElem_modify]
  split
  · exact hf _ (hold _ (Array.getElem_mem _))
  · exact hold _ (Array.getElem_mem _)

/-- An object may be changed to one that refers to what is known, if its link stays. -/
theorem modify (hw : w.Grounded hidden) {f : Object → Object}
    (hf : ∀ o, Known (w.horizon hidden) o → Known (w.horizon hidden) (f o))
    (hp : ∀ o, (f o).proto = o.proto) (r : Ref) :
    World.Grounded hidden ⟨w.heap.modify r f, w.scopes, w.depth⟩ := by
  have hhorizon : World.horizon ⟨w.heap.modify r f, w.scopes, w.depth⟩ hidden = w.horizon hidden := by
    rw [horizon, size_modify, horizon]
  refine ⟨size_modify w r f ▸ hw.hidden_lt, hhorizon ▸ known_modify hw.heap hf r, hhorizon ▸ hw.scopes,
    ?_⟩
  refine Heap.wellFounded_isProto hw.ends (fun _ => False) (fun s _ => ?_)
    (fun _ _ _ _ h => h) fun _ _ h _ => h.elim
  rcases w.heap.get_modify r s f with e | e <;> rw [e]
  exact hp _

/-- An object that nothing refers to may be given any prototype that is known. -/
theorem setProto {r p : Ref} (hw : w.Grounded (r :: hidden))
    (hp : (w.horizon (r :: hidden)).Has p) :
    World.Grounded hidden
      ⟨w.heap.modify r fun o => { o with proto := some p }, w.scopes, w.depth⟩ := by
  have hreveal : Later (w.horizon (r :: hidden)) (w.horizon hidden) := .reveal r
  have hhorizon : World.horizon
      ⟨w.heap.modify r fun o => { o with proto := some p }, w.scopes, w.depth⟩ hidden =
      w.horizon hidden := by rw [horizon, size_modify, horizon]
  have hself : r.index < w.heap.objects.size := hw.hidden_lt r List.mem_cons_self
  refine ⟨size_modify w r _ ▸ fun q hq => hw.hidden_lt q (List.mem_cons_of_mem r hq), ?_,
    hhorizon ▸ hw.scopes.mono hreveal, ?_⟩
  · rw [hhorizon]
    refine known_modify (Known.mono (a := w.heap) hw.heap hreveal) (fun o ho => ?_) r
    exact known_mk.mpr ⟨known_some.mpr (known_ref.mpr (hreveal.has p hp)), ho.properties, ho.content⟩
  -- The object is no prototype yet, and its new one is another.
  refine Heap.wellFounded_isProto hw.ends (· = r) (fun q hq => ?_) (fun q p _ hp e => ?_)
    fun q p' hq hp' e => ?_
  · rw [Heap.get_modify_of_ne _ _ (Ne.symm hq)]
  · exact (hw.proto_known hp).2 (e ▸ List.mem_cons_self)
  · subst hq e
    rw [Heap.IsProto, Heap.get_modify_self _ _ hself] at hp'
    exact hp.2 (Option.some.inj hp' ▸ List.mem_cons_self)

/-- Scopes that refer to what is known may take the place of others. -/
theorem withScopes (hw : w.Grounded hidden) {scopes : Scopes}
    (hs : Known (w.horizon hidden) scopes) : World.Grounded hidden ⟨w.heap, scopes, w.depth⟩ :=
  ⟨hw.hidden_lt, hw.heap, hs, hw.ends⟩

theorem atDepth (hw : w.Grounded hidden) (depth : Nat) :
    World.Grounded hidden { w with depth } := ⟨hw.hidden_lt, hw.heap, hw.scopes, hw.ends⟩

theorem reveal {r : Ref} (hw : w.Grounded (r :: hidden)) : w.Grounded hidden where
  hidden_lt q hq := hw.hidden_lt q (List.mem_cons_of_mem r hq)
  heap := Known.mono (a := w.heap) hw.heap (.reveal r)
  scopes := hw.scopes.mono (.reveal r)
  ends := hw.ends

end World.Grounded

theorem known_scopes_modify {n : Horizon} {s : Scopes} (hs : Known n s) {f : Scope → Scope}
    (hf : ∀ x, Known n x → Known n (f x)) (e : ScopeRef) : Known n (s.modify e f) := by
  refine known_array.mpr fun x hx => ?_
  obtain ⟨i, hi, rfl⟩ := Array.mem_iff_getElem.mp hx
  have hold : ∀ x ∈ s.all, Known n x := known_array.mp hs
  simp only [Scopes.modify, Array.getElem_modify]
  split
  · exact hf _ (hold _ (Array.getElem_mem _))
  · exact hold _ (Array.getElem_mem _)

/-- Scopes stay known when something known is bound in one of them. -/
theorem known_setBinding {n : Horizon} {s : Scopes} (hs : Known n s) {b : Binding} (hb : Known n b)
    (e : ScopeRef) (name : String) : Known n (s.setBinding e name b) :=
  known_scopes_modify hs (fun x hx => by
    obtain ⟨h, h'⟩ := known_scope.mp hx
    exact known_scope.mpr ⟨known_set h hb name, h'⟩) e

/-! ### Courses and actions -/

/-- Every end leaves a grounded state with so many objects or more, and brings nothing unknown;
every state that the host is told of is grounded. What is hidden stays so. -/
def Course.Grounded [Refers α] (n : Horizon) : Course α → Prop
  | .done a w => n.size ≤ w.size ∧ w.Grounded n.hidden ∧ Known (w.horizon n.hidden) a
  | .broke i w => n.size ≤ w.size ∧ w.Grounded n.hidden ∧ Known (w.horizon n.hidden) i
  | .tell _ w next => w.Grounded n.hidden ∧ ∀ r, (next r).Grounded n

namespace Course.Grounded

variable [Refers α] [Refers β] {n : Horizon} {hidden : List Ref} {i j : Nat} {x : Course α}

/-- A course that is grounded later is grounded now. -/
theorem mono (hx : x.Grounded ⟨j, n.hidden⟩) (h : n.size ≤ j) : x.Grounded n := by
  induction x with
  | done a w => exact ⟨Nat.le_trans h hx.1, hx.2⟩
  | broke i w => exact ⟨Nat.le_trans h hx.1, hx.2⟩
  | tell q w next ih => exact ⟨hx.1, fun r => ih r (hx.2 r)⟩

/-- A course goes on grounded if what follows is, in each world it can reach. -/
theorem bind {f : α → World → Course β} (hx : x.Grounded n)
    (hf : ∀ a w, n.size ≤ w.size → w.Grounded n.hidden → Known (w.horizon n.hidden) a →
      (f a w).Grounded n) : (x.bind f).Grounded n := by
  induction x with
  | done a w => exact hf a w hx.1 hx.2.1 hx.2.2
  | broke i w => exact hx
  | tell q w next ih => exact ⟨hx.1, fun r => ih r (hx.2 r)⟩

/-- An object that is hidden may be revealed by what comes next. -/
theorem bind_reveal {r : Ref} {f : α → World → Course β} (hx : x.Grounded ⟨i, r :: hidden⟩)
    (hf : ∀ a w, i ≤ w.size → w.Grounded (r :: hidden) → Known (w.horizon (r :: hidden)) a →
      (f a w).Grounded ⟨i, hidden⟩) : (x.bind f).Grounded ⟨i, hidden⟩ := by
  induction x with
  | done a w => exact hf a w hx.1 hx.2.1 hx.2.2
  | broke e w => exact ⟨hx.1, hx.2.1.reveal, hx.2.2.mono (.reveal r)⟩
  | tell q w next ih => exact ⟨hx.1.reveal, fun a => ih a (hx.2 a)⟩

/-- An outcome caught as data is grounded like the course it comes from. -/
theorem attempt (hx : x.Grounded n) : x.attempt.Grounded n := by
  induction x with
  | done a w => exact hx
  | broke i w => exact hx
  | tell q w next ih => exact ⟨hx.1, fun r => ih r (hx.2 r)⟩

theorem atDepth (hx : x.Grounded n) (f : World → Nat) :
    (x.mapWorld fun w => { w with depth := f w }).Grounded n := by
  induction x with
  | done a w => exact ⟨hx.1, hx.2.1.atDepth _, hx.2.2⟩
  | broke i w => exact ⟨hx.1, hx.2.1.atDepth _, hx.2.2⟩
  | tell q w next ih => exact ⟨hx.1, fun r => ih r (hx.2 r)⟩

end Course.Grounded

/-- Evaluators that are grounded wherever so much is known. -/
structure Evaluator.Grounded (k : Horizon) (m : Evaluator) : Prop where
  eval : ∀ n e isHead hidden w, Later k (w.horizon hidden) → w.Grounded hidden →
    (m.eval n e isHead w).Grounded (w.horizon hidden)
  exec : ∀ n e labels hidden w, Later k (w.horizon hidden) → w.Grounded hidden →
    (m.exec n e labels w).Grounded (w.horizon hidden)
  bind : ∀ n v e mode hidden w, Later k (w.horizon hidden) → w.Grounded hidden →
    Known (w.horizon hidden) v → (m.bind n v e mode w).Grounded (w.horizon hidden)
  call : ∀ f this args hidden w, Later k (w.horizon hidden) → w.Grounded hidden →
    Known (w.horizon hidden) f → Known (w.horizon hidden) this → Known (w.horizon hidden) args →
    (m.call f this args w).Grounded (w.horizon hidden)
  construct : ∀ f args newTarget hidden w, Later k (w.horizon hidden) → w.Grounded hidden →
    Known (w.horizon hidden) f → Known (w.horizon hidden) args →
    Known (w.horizon hidden) newTarget →
    (m.construct f args newTarget w).Grounded (w.horizon hidden)

/-- An evaluator that is good at a horizon is good at all later ones. -/
theorem Evaluator.Grounded.mono {k n : Horizon} {m : Evaluator} (hm : m.Grounded k)
    (h : Later k n) : m.Grounded n where
  eval node e isHead hidden w hw := hm.eval node e isHead hidden w (h.trans hw)
  exec node e labels hidden w hw := hm.exec node e labels hidden w (h.trans hw)
  bind node v e mode hidden w hw := hm.bind node v e mode hidden w (h.trans hw)
  call f this args hidden w hw := hm.call f this args hidden w (h.trans hw)
  construct f args newTarget hidden w hw := hm.construct f args newTarget hidden w (h.trans hw)

/-- A context that refers to what is known, with a grounded evaluator inside. -/
structure Context.Grounded (n : Horizon) (c : Context) : Prop where
  realm : Known n c.realm
  inner : c.inner.Grounded n

theorem Context.Grounded.mono {k n : Horizon} {c : Context} (hc : c.Grounded k) (h : Later k n) :
    c.Grounded n := ⟨hc.realm.mono h, hc.inner.mono h⟩

/-- An action that is grounded wherever so much is known. -/
def Action.Grounded [Refers α] (n : Horizon) (x : Action α) : Prop :=
  ∀ (c : Context) (hidden : List Ref) (w : World), Later n (w.horizon hidden) →
    c.Grounded (w.horizon hidden) → w.Grounded hidden → (x c w).Grounded (w.horizon hidden)

namespace Action

section

variable [Refers α] [Refers β] {n m : Horizon}

/-- Actions in sequence are grounded if the second is at every later horizon. -/
@[grind ←] theorem Grounded.bind {x : Action α} {f : α → Action β} (hx : x.Grounded n)
    (hf : ∀ m a, Later n m → Known m a → (f a).Grounded m) : (x >>= f).Grounded n := by
  intro c hidden w hn hc hw
  refine (hx c hidden w hn hc hw).bind fun a v hv hvw ha => ?_
  have hlater : Later (w.horizon hidden) (v.horizon hidden) := .of_le hv
  exact (hf _ a (hn.trans hlater) ha c hidden v (.refl _) (hc.mono hlater) hvw).mono hv

/-- A grounded action stays grounded when objects are made. -/
theorem Grounded.mono {x : Action α} (hx : x.Grounded n) (h : Later n m) : x.Grounded m :=
  fun c hidden w hm => hx c hidden w (h.trans hm)

/-- A choice between actions is grounded if each is where the test takes it. -/
theorem grounded_ite {p : Prop} [Decidable p] {x y : Action α} (hx : p → x.Grounded n)
    (hy : ¬ p → y.Grounded n) : (if p then x else y).Grounded n := by
  split
  · exact hx ‹p›
  · exact hy ‹¬ p›

/-- A step that is taken under a condition only. -/
theorem Grounded.optional {p : Prop} [Decidable p] {x : Action Unit} {f : Unit → Action α}
    (hx : p → x.Grounded n) (hf : ∀ m, Later n m → (f ()).Grounded m) :
    (if p then x >>= f else f ()).Grounded n :=
  grounded_ite (fun hp => .bind (hx hp) fun m _ hm _ => hf m hm) fun _ => hf n (.refl n)

/-- An action whose interrupts are caught is grounded. -/
@[grind ←] theorem grounded_attempt {x : Action α} (hx : x.Grounded n) : (attempt x).Grounded n :=
  fun c hidden w hn hc hw => (hx c hidden w hn hc hw).attempt

@[grind ←] theorem grounded_deeper {x : Action α} (hx : x.Grounded n) : (deeper x).Grounded n :=
  fun c hidden w hn hc hw =>
    (hx c hidden { w with depth := w.depth + 1 } hn hc (hw.atDepth _)).atDepth _

/-! ### Operations -/

/-- What is already known may be returned. -/
@[grind ←] theorem grounded_pure {a : α} (ha : Known n a) : (pure a : Action α).Grounded n :=
  fun _ _ _ hn _ hw => ⟨Nat.le_refl _, hw, ha.mono hn⟩

/-- An action may be cut short with something known. -/
@[grind ←] theorem grounded_interrupt {i : Interrupt} (hi : Known n i) :
    (interrupt i : Action α).Grounded n := fun _ _ _ hn _ hw => ⟨Nat.le_refl _, hw, hi.mono hn⟩

@[grind ←] theorem grounded_raise (kind : ErrorKind) (message : Text) :
    (raise kind message : Action α).Grounded n := grounded_interrupt (known_of_refs rfl)

@[grind ←] theorem grounded_typeError (message : Text) :
    (typeError message : Action α).Grounded n := grounded_interrupt (known_of_refs rfl)

@[grind ←] theorem grounded_fault (f : Fault) : (fault f : Action α).Grounded n :=
  grounded_interrupt (known_of_refs rfl)

/-- A result that is known if there is one may be taken over. -/
theorem grounded_ofExcept {x : Except Fault α} (hx : ∀ a, x = .ok a → Known n a) :
    (ofExcept x).Grounded n := by
  cases x with
  | ok a => exact grounded_pure (hx a rfl)
  | error f => exact grounded_fault f

@[grind ←] theorem grounded_ofExcept_plain [Refers.Plain α] (x : Except Fault α) :
    (ofExcept x).Grounded n := grounded_ofExcept fun a _ => known_plain n a

@[grind ←] theorem grounded_ofExcept_ok {a : α} (ha : Known n a) :
    (ofExcept (.ok a)).Grounded n := grounded_pure ha

omit [Refers β] in
@[grind ←] theorem grounded_ofExcept_bind {x : Except Fault β} {f : β → Except Fault α}
    (hf : ∀ b, (ofExcept (f b)).Grounded n) : (ofExcept (x >>= f)).Grounded n := by
  cases x with
  | ok b => exact hf b
  | error f => exact grounded_fault f

/-- The realm of the context is known. -/
@[grind ←] theorem grounded_realm : realm.Grounded n :=
  fun _ _ _ _ hc hw => ⟨Nat.le_refl _, hw, hc.realm⟩

@[grind ←] theorem grounded_source : source.Grounded n :=
  fun _ _ _ _ _ hw => ⟨Nat.le_refl _, hw, known_plain _ _⟩

@[grind ←] theorem grounded_wantsText : wantsText.Grounded n :=
  fun _ _ _ _ _ hw => ⟨Nat.le_refl _, hw, known_plain _ _⟩

@[grind ←] theorem grounded_room : room.Grounded n :=
  fun _ _ _ _ _ hw => ⟨Nat.le_refl _, hw, known_plain _ _⟩

@[grind ←] theorem grounded_textOf (node : Node) : (textOf node).Grounded n :=
  .bind grounded_source fun _ _ _ _ => grounded_pure (known_plain _ _)

@[grind ←] theorem grounded_heap : heap.Grounded n :=
  fun _ _ _ _ _ hw => ⟨Nat.le_refl _, hw, hw.heap⟩

/-- What the heap has at any reference is known. -/
@[grind ←] theorem grounded_object (r : Ref) : (object r).Grounded n :=
  fun _ _ _ _ _ hw => ⟨Nat.le_refl _, hw, hw.heap.get r⟩

/-- To make an object is grounded if it refers to what is known. -/
@[grind ←] theorem grounded_alloc {o : Object} (ho : Known n o) : (alloc o).Grounded n := by
  intro c hidden w hn hc hw
  have hsize := World.Grounded.size_alloc w o
  refine ⟨hsize ▸ Nat.le_succ _, hw.alloc (ho.mono hn), known_ref.mpr ⟨?_, fun hr => ?_⟩⟩
  · exact Nat.lt_of_lt_of_eq (Nat.lt_succ_self _) hsize.symm
  · exact Nat.lt_irrefl _ (hw.hidden_lt _ hr)

/-- To change an object is grounded if the change keeps its link and brings in nothing unknown. -/
@[grind ←] theorem grounded_update {f : Object → Object}
    (hf : ∀ m o, Later n m → Known m o → Known m (f o))
    (hp : ∀ o, (f o).proto = o.proto) (r : Ref) : (update r f).Grounded n := by
  intro c hidden w hn hc hw
  have hsize := World.Grounded.size_modify w r f
  exact ⟨Nat.le_of_eq hsize.symm, hw.modify (fun o => hf _ o hn) hp r, known_plain _ _⟩

/-- A new object that is given its prototype only when that is known, by an action that may run the
program. Nobody can have come by the object before. -/
theorem grounded_alloc_setProto {o : Object} {x : Action Ref} (ho : Known n o)
    (hx : ∀ m, Later n m → x.Grounded m) : Grounded n (do
      let r ← alloc o
      let p ← x
      update r fun o => { o with proto := some p }
      return Value.object r) := by
  intro c hidden w hn hc hw
  let v : World := ⟨(w.heap.alloc o).2, w.scopes, w.depth⟩
  let r : Ref := ⟨w.size⟩
  have hsize : v.size = w.size + 1 := World.Grounded.size_alloc w o
  have hhide : Later (w.horizon hidden) (v.horizon (r :: hidden)) := by
    rw [World.horizon, World.horizon, hsize]
    exact .hide
  have hcourse := hx _ (hn.trans hhide) c _ v (.refl _) (hc.mono hhide) (hw.allocHidden (ho.mono hn))
  refine Course.Grounded.mono (hcourse.bind_reveal (f := fun p u => .done (Value.object r)
    { u with heap := u.heap.modify r fun o => { o with proto := some p } }) ?_)
    (Nat.le_trans (Nat.le_succ _) (Nat.le_of_eq hsize.symm))
  refine fun p u hvu hu hp => ⟨?_, hu.setProto (known_ref.mp hp), known_ref.mpr ?_⟩
  · exact Nat.le_trans hvu (Nat.le_of_eq (World.Grounded.size_modify u r _).symm)
  · refine ⟨?_, fun hr => ?_⟩
    · exact Nat.lt_of_lt_of_eq (hu.hidden_lt r List.mem_cons_self)
        (World.Grounded.size_modify u r _).symm
    · exact Nat.lt_irrefl _ (hw.hidden_lt r hr)

@[grind ←] theorem grounded_scopes : scopes.Grounded n :=
  fun _ _ _ _ _ hw => ⟨Nat.le_refl _, hw, hw.scopes⟩

@[grind ←] theorem grounded_scope (e : ScopeRef) : (scope e).Grounded n :=
  fun _ _ _ _ _ hw => ⟨Nat.le_refl _, hw, hw.scopes.scope e⟩

/-- To open a scope is grounded if it binds what is known. -/
@[grind ←] theorem grounded_allocScope {s : Scope} (hs : Known n s) : (allocScope s).Grounded n :=
  fun _ hidden w hn _ hw => ⟨Nat.le_refl _, hw.withScopes (known_push.mpr
    ⟨hw.scopes, hs.mono hn⟩ : Known (w.horizon hidden) (w.scopes.all.push s)), known_plain _ _⟩

@[grind ←] theorem grounded_childScope (e : ScopeRef) : (childScope e).Grounded n :=
  grounded_allocScope (known_of_refs rfl)

/-- To declare a name is grounded if its value is known. -/
@[grind ←] theorem grounded_declare (e : ScopeRef) (name : String) (kind : BindingKind)
    {value : Option Value} (hv : Known n value) : (declare e name kind value).Grounded n := by
  intro c hidden w hn hc hw
  refine ⟨Nat.le_refl _, hw.withScopes ?_, known_plain _ _⟩
  unfold Scopes.declare
  split
  · exact hw.scopes
  · exact known_setBinding hw.scopes (known_binding.mpr (hv.mono hn)) e name

/-- To assign is grounded if the value is known, also where the assignment fails. -/
@[grind ←] theorem grounded_assign (e : ScopeRef) (name : String) {v : Value} (hv : Known n v) :
    (assign e name v).Grounded n := by
  intro c hidden ⟨heap, scopes, depth⟩ hn hc hw
  simp only [assign]
  cases scopes.assignable e name with
  | error x => exact ⟨Nat.le_refl _, hw, known_of_refs rfl⟩
  | ok p =>
    exact ⟨Nat.le_refl _, hw.withScopes
      (known_setBinding hw.scopes (known_binding.mpr (known_some.mpr (hv.mono hn))) p.1 name),
      known_plain _ _⟩

@[grind ←] theorem grounded_setThis (e : ScopeRef) {v : Value} (hv : Known n v) :
    (setThis e v).Grounded n := by
  intro c hidden w hn hc hw
  refine ⟨Nat.le_refl _, hw.withScopes (known_scopes_modify hw.scopes (fun s hs => ?_) e),
    known_plain _ _⟩
  exact known_scope.mpr
    ⟨hs.bindings, known_some.mpr (hv.mono hn), hs.function, hs.home, hs.newTarget⟩

/-- What is read from known scopes is known. -/
theorem known_read {s : Scopes} (hs : Known n s) {e : ScopeRef} {name : String} {v : Value}
    (h : s.read e name = .ok v) : Known n v := by
  unfold Scopes.read Scopes.resolve at h
  split at h
  · cases h
  · next b hb =>
    split at hb
    · cases hb
    · next f hf =>
      have hb : Known n b := known_option.mp (known_get? (hs.scope f).bindings name) b hb
      split at h
      · cases h
      · next u hu =>
        obtain rfl : u = v := by simpa using h
        exact known_option.mp hb u hu

@[grind ←] theorem grounded_lookup (e : ScopeRef) (name : String) : (lookup e name).Grounded n := by
  intro c hidden w hn hc hw
  unfold lookup
  cases hv : w.scopes.read e name with
  | ok v => exact ⟨Nat.le_refl _, hw, known_read hw.scopes hv⟩
  | error x => exact ⟨Nat.le_refl _, hw, known_of_refs rfl⟩

@[grind ←] theorem grounded_this (e : ScopeRef) : (this e).Grounded n := by
  intro c hidden w hn hc hw
  unfold this
  cases hv : w.scopes.this e with
  | error x => exact ⟨Nat.le_refl _, hw, known_of_refs rfl⟩
  | ok v =>
    refine ⟨Nat.le_refl _, hw, ?_⟩
    unfold Scopes.this at hv
    split at hv
    · cases hv
    · next u hu =>
      obtain rfl : u = v := by simpa using hv
      exact known_option.mp (hw.scopes.scope _).this u hu

@[grind ←] theorem grounded_depth : depth.Grounded n :=
  fun _ _ _ _ _ hw => ⟨Nat.le_refl _, hw, known_plain _ _⟩

/-- The host is told of a call and replies with no object. -/
@[grind ←] theorem grounded_tell (f : Heap → Call) : (tell f).Grounded n := by
  refine fun c hidden w hn hc hw => ⟨hw, fun r => ?_⟩
  cases r <;> exact ⟨Nat.le_refl _, hw, known_of_refs rfl⟩

/-! What comes after an action that is cut short does not run. -/

omit [Refers α] [Refers β] in
/-- What follows an interrupt does not happen. -/
@[grind =] theorem interrupt_bind (i : Interrupt) (f : α → Action β) :
    (interrupt i >>= f) = interrupt i := rfl

omit [Refers α] [Refers β] in
@[grind =] theorem raise_bind (kind : ErrorKind) (message : Text) (f : α → Action β) :
    (raise kind message >>= f) = raise kind message := rfl

omit [Refers α] [Refers β] in
@[grind =] theorem typeError_bind (message : Text) (f : α → Action β) :
    (typeError message >>= f) = typeError message := rfl

/-- Nested evaluations are grounded by the evaluator of the context. -/
@[grind ←] theorem grounded_eval (node : Node) (e : ScopeRef) : (eval node e).Grounded n :=
  fun _ hidden w _ hc hw => hc.inner.eval node e false hidden w (.refl _) hw

@[grind ←] theorem grounded_evalHead (node : Node) (e : ScopeRef) : (evalHead node e).Grounded n :=
  fun _ hidden w _ hc hw => hc.inner.eval node e true hidden w (.refl _) hw

@[grind ←] theorem grounded_exec (node : Node) (e : ScopeRef) : (exec node e).Grounded n :=
  fun _ hidden w _ hc hw => hc.inner.exec node e [] hidden w (.refl _) hw

@[grind ←] theorem grounded_execLabeled (node : Node) (e : ScopeRef) (labels : List String) :
    (execLabeled node e labels).Grounded n :=
  fun _ hidden w _ hc hw => hc.inner.exec node e labels hidden w (.refl _) hw

/-- To bind a target is grounded if the value is known. -/
@[grind ←] theorem grounded_bindTarget (node : Node) {v : Value} (hv : Known n v) (e : ScopeRef)
    (mode : BindMode) : (bindTarget node v e mode).Grounded n :=
  fun _ hidden w hn hc hw => hc.inner.bind node v e mode hidden w (.refl _) hw (hv.mono hn)

/-- Calls are grounded if function, receiver and arguments are known. -/
@[grind ←] theorem grounded_call {f this : Value} {args : List Value} (hf : Known n f)
    (hthis : Known n this) (hargs : Known n args) : (call f this args).Grounded n :=
  fun _ hidden w hn hc hw =>
    hc.inner.call f this args hidden w (.refl _) hw (hf.mono hn) (hthis.mono hn) (hargs.mono hn)

/-- Constructions are grounded if function, arguments and new target are known. -/
@[grind ←] theorem grounded_construct {f newTarget : Value} {args : List Value} (hf : Known n f)
    (hargs : Known n args) (hnew : Known n newTarget) :
    (construct f args newTarget).Grounded n :=
  fun _ hidden w hn hc hw =>
    hc.inner.construct f args newTarget hidden w (.refl _) hw (hf.mono hn) (hargs.mono hn) (hnew.mono hn)

/-- A loop is grounded if each of its rounds is, at the horizon it starts from. -/
theorem grounded_loop {body : α → Action (α ⊕ β)}
    (h : ∀ m a, Later n m → Known m a → (body a).Grounded m) (fuel : Nat) (hm : Later n m) {a : α}
    (ha : Known m a) : Action.Grounded m (loop body fuel a) := by
  induction fuel generalizing m a with
  | zero => exact grounded_fault _
  | succ fuel ih =>
    rw [loop_succ]
    refine .bind (h m a hm ha) fun k x hk hx => ?_
    cases x with
    | inl b => exact ih (hm.trans hk) hx
    | inr b => exact grounded_pure hx

/-- A loop from something known is grounded if its rounds are. -/
@[grind ←] theorem grounded_repeating {body : α → Action (α ⊕ β)} {a : α} (ha : Known n a)
    (h : ∀ m a, Later n m → Known m a → (body a).Grounded m) : (repeating a body).Grounded n :=
  grounded_loop h maxRounds (.refl n) ha

/-- A known list is gone through grounded if each member is. -/
@[grind ←] theorem grounded_each {f : α → Action Unit} {as : List α} (has : Known n as)
    (h : ∀ m a, Later n m → Known m a → (f a).Grounded m) : Action.Grounded n (each f as) := by
  induction as generalizing n with
  | nil => exact grounded_pure (known_plain _ _)
  | cons a as ih =>
    have has := known_cons.mp has
    rw [each_cons]
    exact .bind (h n a (.refl n) has.1) fun m _ hm _ =>
      ih (has.2.mono hm) fun k b hk => h k b (hm.trans hk)

theorem grounded_collectRev {f : α → Action β} {as : List α} (has : Known n as)
    (h : ∀ m a, Later n m → Known m a → (f a).Grounded m) {acc : List β} (hacc : Known n acc) :
    Action.Grounded n (collectRev f as acc) := by
  induction as generalizing n acc with
  | nil => exact grounded_pure hacc
  | cons a as ih =>
    have has := known_cons.mp has
    rw [collectRev_cons]
    exact .bind (h n a (.refl n) has.1) fun m b hm hb =>
      ih (has.2.mono hm) (fun k a hk => h k a (hm.trans hk)) (known_cons.mpr ⟨hb, hacc.mono hm⟩)

/-- What is collected over a known list is known. -/
@[grind ←] theorem grounded_collect {f : α → Action β} {as : List α} (has : Known n as)
    (h : ∀ m a, Later n m → Known m a → (f a).Grounded m) : (collect f as).Grounded n :=
  .bind (grounded_collectRev has h known_nil) fun _ _ _ hb => grounded_pure (known_reverse.mpr hb)

@[grind ←] theorem grounded_mapM {f : α → Action β} {as : List α} (has : Known n as)
    (h : ∀ m a, Later n m → Known m a → (f a).Grounded m) : (as.mapM f).Grounded n := by
  have hloop : ∀ m acc, Later n m → Known m acc → (List.mapM.loop f as acc).Grounded m := by
    induction as with
    | nil => exact fun m acc _ hacc => grounded_pure (known_reverse.mpr hacc)
    | cons a as ih =>
      have has := known_cons.mp has
      exact fun m acc hm hacc => .bind (h m a hm (has.1.mono hm)) fun k b hk hb =>
        ih has.2 k (b :: acc) (hm.trans hk) (known_cons.mpr ⟨hb, hacc.mono hk⟩)
  exact hloop n [] (.refl n) known_nil

end

end Action
end Stepper.Machine
