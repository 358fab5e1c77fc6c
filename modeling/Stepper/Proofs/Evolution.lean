import Stepper.Machine.World

/-!
What no operation takes back. Objects and scopes are never removed. An object that is frozen stays
frozen and keeps the names of its properties in their order. A scope keeps its place among the
scopes, and a name that is bound in it stays bound. The states of a run evolve in this way from each
other.
-/
namespace Stepper

/-- No key is lost when one is set. -/
theorem OrderedMap.isSome_set {κ α : Type} [DecidableEq κ] {d : OrderedMap κ α} {k : κ}
    (h : (d.get? k).isSome = true) (l : κ) (a : α) : ((d.set l a).get? k).isSome = true := by
  rw [get?_set]
  split
  · rfl
  · exact h

/-- To set a key keeps the keys there are, or puts one behind them. -/
theorem OrderedMap.keys_prefix_set {κ α : Type} [DecidableEq κ] (d : OrderedMap κ α) (k : κ)
    (a : α) : d.keys <+: (d.set k a).keys := by
  rw [keys_set]
  split
  · exact List.prefix_rfl
  · exact List.prefix_append ..

/-- A key that was set is there. -/
theorem OrderedMap.mem_keys_set {κ α : Type} [DecidableEq κ] (d : OrderedMap κ α) (k : κ) (a : α) :
    k ∈ (d.set k a).keys := by
  rw [keys_set]
  split
  · assumption
  · exact List.mem_append_right _ List.mem_cons_self

end Stepper

namespace Stepper.Machine

structure Object.Evolves (o o' : Object) : Prop where
  isError : o'.isError = o.isError
  frozen : o.frozen = true → o'.frozen = true
  keys : o.frozen = true → o.properties.keys <+: o'.properties.keys

theorem Object.Evolves.refl (o : Object) : o.Evolves o :=
  ⟨rfl, id, fun _ => List.prefix_rfl⟩

theorem Object.Evolves.trans {o o' o'' : Object} (h : o.Evolves o') (k : o'.Evolves o'') :
    o.Evolves o'' :=
  ⟨k.isError.trans h.isError, fun hf => k.frozen (h.frozen hf),
    fun hf => (h.keys hf).trans (k.keys (h.frozen hf))⟩

/-- What an object holds beside its properties is of no account. -/
theorem Object.evolves_content (o : Object) (content : Content) :
    o.Evolves { o with content } := ⟨rfl, id, fun _ => List.prefix_rfl⟩

/-- A property may be set. -/
theorem Object.evolves_set (o : Object) (k : Text) (s : Slot) :
    o.Evolves { o with properties := o.properties.set k s } :=
  ⟨rfl, id, fun _ => OrderedMap.keys_prefix_set ..⟩

structure Heap.Evolves (h h' : Heap) : Prop where
  size : h.objects.size ≤ h'.objects.size
  object : ∀ r : Ref, r.index < h.objects.size → (h.get r).Evolves (h'.get r)

namespace Heap

variable {h h' h'' : Heap}

theorem Evolves.refl (h : Heap) : h.Evolves h := ⟨Nat.le_refl _, fun r _ => .refl (h.get r)⟩

theorem Evolves.trans (e : h.Evolves h') (e' : h'.Evolves h'') : h.Evolves h'' :=
  ⟨Nat.le_trans e.size e'.size, fun r hr =>
    (e.object r hr).trans (e'.object r (Nat.lt_of_lt_of_le hr e.size))⟩

theorem get_alloc_of_lt (h : Heap) (o : Object) {r : Ref} (hr : r.index < h.objects.size) :
    (h.alloc o).2.get r = h.get r := by
  simp [get, alloc, Array.getD_eq_getD_getElem?, Array.getElem?_push, Nat.ne_of_lt hr]

theorem get_modify_self (h : Heap) (f : Object → Object) {r : Ref} (hr : r.index < h.objects.size) :
    (h.modify r f).get r = f (h.get r) := by
  simp [get, modify, Array.getD_eq_getD_getElem?, Array.getElem_modify, hr]

theorem get_modify_of_ne (h : Heap) (f : Object → Object) {r q : Ref} (hrq : r ≠ q) :
    (h.modify r f).get q = h.get q := by
  have hne : r.index ≠ q.index := fun he => hrq (congrArg Ref.mk he)
  simp [get, modify, Array.getD_eq_getD_getElem?, Array.getElem?_modify, hne]

theorem evolves_alloc (h : Heap) (o : Object) : h.Evolves (h.alloc o).2 :=
  ⟨by simp [alloc], fun r hr => get_alloc_of_lt h o hr ▸ .refl (h.get r)⟩

theorem evolves_modify (h : Heap) (r : Ref) {f : Object → Object}
    (hf : (h.get r).Evolves (f (h.get r))) : h.Evolves (h.modify r f) := by
  refine ⟨by simp [modify], fun q hq => ?_⟩
  by_cases hrq : r = q
  · subst hrq
    exact get_modify_self h f hq ▸ hf
  · exact get_modify_of_ne h f hrq ▸ .refl (h.get q)

end Heap

structure Scope.Evolves (s s' : Scope) : Prop where
  parent : s'.parent = s.parent
  hasThis : s'.hasThis = s.hasThis
  function : s'.function = s.function
  home : s'.home = s.home
  newTarget : s'.newTarget = s.newTarget
  bound : ∀ name, (s.bindings.get? name).isSome = true → (s'.bindings.get? name).isSome = true

theorem Scope.Evolves.refl (s : Scope) : s.Evolves s := ⟨rfl, rfl, rfl, rfl, rfl, fun _ => id⟩

theorem Scope.Evolves.trans {s s' s'' : Scope} (h : s.Evolves s') (k : s'.Evolves s'') :
    s.Evolves s'' :=
  ⟨k.parent.trans h.parent, k.hasThis.trans h.hasThis, k.function.trans h.function,
    k.home.trans h.home, k.newTarget.trans h.newTarget,
    fun name hname => k.bound name (h.bound name hname)⟩

structure Scopes.Evolves (s s' : Scopes) : Prop where
  size : s.all.size ≤ s'.all.size
  scope : ∀ e : ScopeRef, e.index < s.all.size → (s.get e).Evolves (s'.get e)

namespace Scopes

variable {s s' s'' : Scopes}

theorem Evolves.refl (s : Scopes) : s.Evolves s := ⟨Nat.le_refl _, fun e _ => .refl (s.get e)⟩

theorem Evolves.trans (h : s.Evolves s') (k : s'.Evolves s'') : s.Evolves s'' :=
  ⟨Nat.le_trans h.size k.size, fun e he =>
    (h.scope e he).trans (k.scope e (Nat.lt_of_lt_of_le he h.size))⟩

theorem get_alloc_of_lt (s : Scopes) (scope : Scope) {e : ScopeRef} (he : e.index < s.all.size) :
    (s.alloc scope).2.get e = s.get e := by
  simp [get, alloc, Array.getD_eq_getD_getElem?, Array.getElem?_push, Nat.ne_of_lt he]

theorem get_modify_of_ne (s : Scopes) (f : Scope → Scope) {e g : ScopeRef} (heg : e ≠ g) :
    (s.modify e f).get g = s.get g := by
  have hne : e.index ≠ g.index := fun he => heg (congrArg ScopeRef.mk he)
  simp [get, modify, Array.getD_eq_getD_getElem?, Array.getElem?_modify, hne]

theorem get_modify_self (s : Scopes) (f : Scope → Scope) {e : ScopeRef} (he : e.index < s.all.size) :
    (s.modify e f).get e = f (s.get e) := by
  simp [get, modify, Array.getD_eq_getD_getElem?, Array.getElem_modify, he]

theorem evolves_alloc (s : Scopes) (scope : Scope) : s.Evolves (s.alloc scope).2 :=
  ⟨by simp [alloc], fun e he => get_alloc_of_lt s scope he ▸ .refl (s.get e)⟩

theorem evolves_modify (s : Scopes) (e : ScopeRef) {f : Scope → Scope}
    (hf : ∀ scope : Scope, scope.Evolves (f scope)) : s.Evolves (s.modify e f) := by
  refine ⟨by simp [modify], fun g hg => ?_⟩
  by_cases heg : e = g
  · subst heg
    exact get_modify_self s f hg ▸ hf (s.get e)
  · exact get_modify_of_ne s f heg ▸ .refl (s.get g)

/-- A name may be bound. -/
theorem evolves_setBinding (s : Scopes) (e : ScopeRef) (name : String) (b : Binding) :
    s.Evolves (s.setBinding e name b) :=
  evolves_modify s e fun _ =>
    ⟨rfl, rfl, rfl, rfl, rfl, fun _ hbound => OrderedMap.isSome_set hbound name b⟩

/-- A name may be declared, also where it is declared already. -/
theorem evolves_declare (s : Scopes) (e : ScopeRef) (name : String) (kind : BindingKind)
    (value : Option Value) : s.Evolves (s.declare e name kind value) := by
  unfold declare
  split
  · exact .refl s
  · exact evolves_setBinding ..

end Scopes

structure World.Evolves (w w' : World) : Prop where
  heap : w.heap.Evolves w'.heap
  scopes : w.scopes.Evolves w'.scopes

theorem World.Evolves.refl (w : World) : w.Evolves w := ⟨.refl w.heap, .refl w.scopes⟩

theorem World.Evolves.trans {w w' w'' : World} (h : w.Evolves w') (k : w'.Evolves w'') :
    w.Evolves w'' := ⟨h.heap.trans k.heap, h.scopes.trans k.scopes⟩

/-- What a single operation may do to the state: it takes nothing back, and stays in the function
that it is made in. -/
structure World.Steps (w w' : World) : Prop extends w.Evolves w' where
  depth : w'.depth = w.depth

theorem World.Steps.refl (w : World) : w.Steps w := ⟨.refl w, rfl⟩

end Stepper.Machine
