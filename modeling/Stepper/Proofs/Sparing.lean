import Stepper.Proofs.Evolution

/-!
What happens to bindings where nothing is declared. An assignment gives a variable another value,
and makes a `var` in an outermost scope of a name that is bound nowhere; a binding that may not be
read yet and a constant stay what they are. Of all operations on the state only a declaration does
more, and that to one name in one scope.
-/
namespace Stepper.Machine

/-- What may come of a binding, or of there being none, where nothing is declared. -/
inductive Binding.Reassigned (isOutermost : Prop) : Option Binding → Option Binding → Prop where
  | same (b : Option Binding) : Reassigned isOutermost b b
  | changed {u v : Value} {kind : BindingKind} (hkind : kind ≠ .const) :
      Reassigned isOutermost (some ⟨some u, kind⟩) (some ⟨some v, kind⟩)
  | made (hout : isOutermost) (v : Value) : Reassigned isOutermost none (some ⟨some v, .var⟩)

theorem Binding.Reassigned.trans {p : Prop} {b b' b'' : Option Binding} (h : Reassigned p b b')
    (h' : Reassigned p b' b'') : Reassigned p b b'' := by
  cases h with
  | same => exact h'
  | changed hkind =>
    cases h' with
    | same => exact .changed hkind
    | changed _ => exact .changed hkind
  | made hout v =>
    cases h' with
    | same => exact .made hout v
    | changed _ => exact .made hout _

/-- What can be read can be read afterwards. -/
theorem Binding.Reassigned.initialized {p : Prop} {v : Value} {kind : BindingKind}
    {b : Option Binding} (h : Reassigned p (some ⟨some v, kind⟩) b) :
    ∃ u, b = some ⟨some u, kind⟩ := by
  cases h with
  | same => exact ⟨v, rfl⟩
  | changed _ => exact ⟨_, rfl⟩

namespace Scopes

variable {s s' s'' : Scopes} {e f g : ScopeRef} {name n : String}

/-- What a scope itself binds a name to. -/
def binding? (s : Scopes) (e : ScopeRef) (name : String) : Option Binding :=
  (s.get e).bindings.get? name

/-- There is nothing to change in a scope that is not there. -/
theorem modify_of_le (h : s.all.size ≤ f.index) (change : Scope → Scope) :
    s.modify f change = s := by
  refine congrArg Scopes.mk (Array.ext Array.size_modify fun i _ hi => ?_)
  have hne : f.index ≠ i := by omega
  rw [Array.getElem_modify, if_neg hne]

/-- What is bound in a scope is its binding there. -/
theorem binding?_setBinding_self (hf : f.index < s.all.size) (b : Binding) :
    (s.setBinding f name b).binding? f name = some b := by
  unfold binding? setBinding
  rw [get_modify_self _ _ hf]
  simp

/-- Other bindings stay. -/
theorem binding?_setBinding_of_ne (h : ¬ (g = f ∧ n = name)) (b : Binding) :
    (s.setBinding f name b).binding? g n = s.binding? g n := by
  unfold binding? setBinding
  by_cases hg : g = f
  · subst hg
    by_cases hlt : g.index < s.all.size
    · rw [get_modify_self _ _ hlt, OrderedMap.get?_set, if_neg fun hn => h ⟨rfl, hn⟩]
    · rw [modify_of_le (Nat.le_of_not_lt hlt)]
  · rw [get_modify_of_ne _ _ (Ne.symm hg)]

theorem parent?_setBinding (s : Scopes) (f : ScopeRef) (name : String) (b : Binding)
    (g : ScopeRef) : (s.setBinding f name b).parent? g = s.parent? g := by
  unfold parent? setBinding
  by_cases hg : f = g
  · subst hg
    by_cases hf : f.index < s.all.size
    · rw [get_modify_self _ _ hf]
    · rw [modify_of_le (Nat.le_of_not_lt hf)]
  · rw [get_modify_of_ne _ _ hg]

/-- At most assignments to the names in question, of the scopes there are. -/
structure Spares (P : ScopeRef → String → Prop) (s s' : Scopes) : Prop extends s.Evolves s' where
  binding : ∀ f x, f.index < s.all.size → P f x →
    Binding.Reassigned (s.parent? f = none) (s.binding? f x) (s'.binding? f x)

variable {P Q : ScopeRef → String → Prop}

theorem Spares.refl (P : ScopeRef → String → Prop) (s : Scopes) : s.Spares P s :=
  ⟨.refl s, fun _ _ _ _ => .same _⟩

theorem Evolves.parent? (h : s.Evolves s') (hf : f.index < s.all.size) :
    s'.parent? f = s.parent? f := by
  unfold Scopes.parent?
  rw [(h.scope f hf).parent]

/-- What is spared twice is spared. -/
theorem Spares.trans (h : s.Spares P s') (h' : s'.Spares P s'') : s.Spares P s'' := by
  refine ⟨h.toEvolves.trans h'.toEvolves, fun f x hf hx => (h.binding f x hf hx).trans ?_⟩
  have hlater := h'.binding f x (Nat.lt_of_lt_of_le hf h.size) hx
  rwa [h.toEvolves.parent? hf] at hlater

/-- Where less is asked to be spared, it is. -/
theorem Spares.mono (h : s.Spares P s') (hPQ : ∀ f x, Q f x → P f x) : s.Spares Q s' :=
  ⟨h.toEvolves, fun f x hf hx => h.binding f x hf (hPQ f x hx)⟩

/-- Scopes whose bindings stay are spared. -/
theorem spares_of_bindings (h : s.Evolves s')
    (hsame : ∀ f x, f.index < s.all.size → s'.binding? f x = s.binding? f x)
    (P : ScopeRef → String → Prop) : s.Spares P s' :=
  ⟨h, fun f x hf _ => by rw [hsame f x hf]; exact .same _⟩

theorem binding?_alloc (s : Scopes) (scope : Scope) (hf : f.index < s.all.size) (x : String) :
    (s.alloc scope).2.binding? f x = s.binding? f x := by
  unfold binding?
  rw [get_alloc_of_lt s scope hf]

/-- A new scope takes nothing from the others. -/
theorem spares_alloc (P : ScopeRef → String → Prop) (s : Scopes) (scope : Scope) :
    s.Spares P (s.alloc scope).2 :=
  spares_of_bindings (s.evolves_alloc scope) (fun _ x hf => s.binding?_alloc scope hf x) P

theorem evolves_this (s : Scopes) (e : ScopeRef) (v : Value) :
    s.Evolves (s.modify e fun scope => { scope with this := some v }) :=
  s.evolves_modify e fun _ => ⟨rfl, rfl, rfl, rfl, rfl, fun _ => id⟩

theorem binding?_this (s : Scopes) (e : ScopeRef) (v : Value) (f : ScopeRef) (x : String) :
    (s.modify e fun scope => { scope with this := some v }).binding? f x = s.binding? f x := by
  unfold binding?
  by_cases hf : e = f
  · subst hf
    by_cases hlt : e.index < s.all.size
    · rw [get_modify_self _ _ hlt]
    · rw [modify_of_le (Nat.le_of_not_lt hlt)]
  · rw [get_modify_of_ne _ _ hf]

/-- To declare a name spares all other bindings. -/
theorem spares_declare (h : ∀ f x, P f x → ¬ (f = e ∧ x = name)) (s : Scopes) (kind : BindingKind)
    (value : Option Value) : s.Spares P (s.declare e name kind value) := by
  refine ⟨s.evolves_declare e name kind value, fun f x _ hx => ?_⟩
  unfold declare
  split
  · exact .same _
  · rw [binding?_setBinding_of_ne (h f x hx)]
    exact .same _

theorem parent?_outermost (s : Scopes) (e : ScopeRef) : s.parent? (s.outermost e) = none := by
  fun_induction outermost s e with
  | case1 e hp => exact hp
  | case2 e p hp ih => exact ih

/-- A name that nobody holds is not bound in the outermost scope. -/
theorem binding?_outermost (h : s.holder? name e = none) :
    s.binding? (s.outermost e) name = none := by
  fun_induction holder? s name e with
  | case1 e hbound => cases h
  | case2 e hfree hp =>
    rw [outermost]
    split
    · simpa [binding?] using hfree
    · simp_all
  | case3 e hfree p hp ih =>
    rw [outermost]
    split
    · simp_all
    · simp_all

/-- What an assignment finds at the place it goes to is a variable that can be read, or nothing in
an outermost scope. -/
theorem reassigned_of_assignable {kind : BindingKind} (h : s.assignable e name = .ok (f, kind))
    (v : Value) :
    Binding.Reassigned (s.parent? f = none) (s.binding? f name) (some ⟨some v, kind⟩) := by
  unfold assignable at h
  cases hholder : s.holder? name e with
  | none =>
    rw [hholder] at h
    cases h
    rw [binding?_outermost hholder]
    exact .made (s.parent?_outermost e) v
  | some g =>
    rw [hholder] at h
    dsimp only at h
    cases hb : (s.get g).bindings.get? name with
    | none => simp [hb] at h
    | some b =>
      obtain ⟨value, k⟩ := b
      cases value with
      | none => simp [hb, Binding.isInitialized] at h
      | some u =>
        by_cases hk : k = .const
        · simp [hb, hk, Binding.isInitialized, Binding.isMutable] at h
        · simp [hb, hk, Binding.isInitialized, Binding.isMutable] at h
          obtain ⟨rfl, rfl⟩ := h
          unfold binding?
          rw [hb]
          exact .changed hk

/-- An assignment gives a binding another value, and makes one only if nobody has the name. -/
theorem spares_assign {kind : BindingKind} (h : s.assignable e name = .ok (f, kind)) (v : Value)
    (P : ScopeRef → String → Prop) : s.Spares P (s.setBinding f name ⟨some v, kind⟩) := by
  refine ⟨s.evolves_setBinding f name _, fun g x hg _ => ?_⟩
  by_cases hplace : g = f ∧ x = name
  · obtain ⟨rfl, rfl⟩ := hplace
    rw [binding?_setBinding_self hg]
    exact reassigned_of_assignable h v
  · rw [binding?_setBinding_of_ne hplace]
    exact .same _

end Scopes

/-- What a single operation may do to the state that neither declares nor assigns nor decides
`this`. -/
structure World.Operates (w w' : World) : Prop extends w.Steps w' where
  binding : ∀ f x, f.index < w.scopes.all.size → w'.scopes.binding? f x = w.scopes.binding? f x
  this : ∀ f, f.index < w.scopes.all.size → (w'.scopes.get f).this = (w.scopes.get f).this

namespace World

/-- A step that leaves the scopes as they are is a single operation. -/
theorem Operates.of_scopes {w w' : World} (h : w.Steps w') (hscopes : w'.scopes = w.scopes) :
    w.Operates w' :=
  ⟨h, fun _ _ _ => by rw [hscopes], fun _ _ => by rw [hscopes]⟩

theorem Operates.refl (w : World) : w.Operates w := .of_scopes (.refl w) rfl

/-- A scope may be opened. -/
theorem operates_allocScope (w : World) (s : Scope) :
    w.Operates ⟨w.heap, (w.scopes.alloc s).2, w.depth⟩ :=
  ⟨⟨⟨.refl _, w.scopes.evolves_alloc s⟩, rfl⟩, fun _ x hf => w.scopes.binding?_alloc s hf x,
    fun _ hf => by rw [Scopes.get_alloc_of_lt w.scopes s hf]⟩

/-- The state with `this` decided in a scope. -/
def withThis (w : World) (e : ScopeRef) (v : Value) : World :=
  ⟨w.heap, w.scopes.modify e fun s => { s with this := some v }, w.depth⟩

theorem steps_withThis (w : World) (e : ScopeRef) (v : Value) : w.Steps (w.withThis e v) :=
  ⟨⟨.refl _, w.scopes.evolves_this e v⟩, rfl⟩

/-- Single operations spare all bindings. -/
theorem Operates.spares {w w' : World} (h : w.Operates w') (P : ScopeRef → String → Prop) :
    w.scopes.Spares P w'.scopes := Scopes.spares_of_bindings h.scopes h.binding P

end World
end Stepper.Machine
