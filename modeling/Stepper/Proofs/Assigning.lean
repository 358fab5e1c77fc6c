import Mathlib.Logic.Relation
import Stepper.Execution.Run
import Stepper.Proofs.Hoisting

/-!
Assignments to names. A name means the binding in the innermost scope that has one, seen from where
it is used. An assignment is refused if that binding may not be read yet or is constant, and then
nothing changes; otherwise it changes this one binding, or makes one in the outermost scope, and all
that is bound elsewhere stays. So nothing that assignments do, while scopes are entered and left,
gives a value to a binding that has none or another one to a constant.
-/
namespace Stepper.Machine

open Machine.Action

namespace Scopes

variable {s t : Scopes} {e f g p : ScopeRef} {name n : String} {b : Binding}

instance : Decidable (s.Binds e name) :=
  inferInstanceAs (Decidable (((s.get e).bindings.get? name).isSome = true))

/-- The scope that a name leads to: it is seen from `e` and binds the name, and what else is seen
from `e` and binds it lies around. -/
structure Innermost (s : Scopes) (name : String) (e f : ScopeRef) : Prop where
  seen : s.Inside f e
  binds : s.Binds f name
  around : ∀ g, s.Inside g e → s.Binds g name → s.Inside g f

theorem Inside.le (h : s.Inside f e) : f.index ≤ e.index := by
  induction h with
  | here => exact Nat.le_refl _
  | around hp _ ih => exact Nat.le_trans ih (Nat.le_of_lt (parent?_lt hp))

theorem Inside.antisymm (h : s.Inside f e) (h' : s.Inside e f) : f = e := by
  have hindex : f.index = e.index := Nat.le_antisymm h.le h'.le
  exact congrArg ScopeRef.mk hindex

theorem Inside.of_parent (h : s.Inside g e) (hne : g ≠ e) (hp : s.parent? e = some p) :
    s.Inside g p := by
  cases h with
  | here => exact absurd rfl hne
  | around hq h =>
    rw [hp] at hq
    cases hq
    exact h

theorem Innermost.unique (h : s.Innermost name e f) (h' : s.Innermost name e g) : f = g :=
  (h'.around f h.seen h.binds).antisymm (h.around g h'.seen h'.binds)

theorem innermost_of_holder? (h : s.holder? name e = some f) : s.Innermost name e f := by
  fun_induction holder? s name e with
  | case1 e hbinds =>
    cases h
    exact ⟨.here, hbinds, fun g hg _ => hg⟩
  | case2 e hfree hp => cases h
  | case3 e hfree p hp ih =>
    have hinner := ih h
    refine ⟨.around hp hinner.seen, hinner.binds, fun g hg hbinds => ?_⟩
    have hne : g ≠ e := by
      rintro rfl
      exact hfree hbinds
    exact hinner.around g (hg.of_parent hne hp) hbinds

theorem innermost_iff : s.Innermost name e f ↔ s.holder? name e = some f := by
  constructor
  · intro h
    obtain ⟨g, hg, -⟩ := holder?_inside h.binds h.seen
    rw [hg, (innermost_of_holder? hg).unique h]
  · exact innermost_of_holder?

theorem not_binds_of_holder?_none (h : s.holder? name e = none) (hf : s.Inside f e) :
    ¬ s.Binds f name := by
  intro hbinds
  obtain ⟨g, hg, -⟩ := holder?_inside hbinds hf
  rw [h] at hg
  cases hg

theorem binds_iff : s.Binds e name ↔ ∃ b, s.binding? e name = some b := Option.isSome_iff_exists

theorem inside_of_parents (h : ∀ g, t.parent? g = s.parent? g) (hf : s.Inside f e) :
    t.Inside f e := by
  induction hf with
  | here => exact .here
  | around hp _ ih => exact .around ((h _).trans hp) ih

/-- Who sees a binding sees it after it was set, too. -/
theorem Innermost.setBinding (h : s.Innermost name e f) (b : Binding) :
    (s.setBinding f name b).Innermost name e f := by
  have hparents := parent?_setBinding s f name b
  refine ⟨inside_of_parents hparents h.seen, ?_, fun g hg hbinds => ?_⟩
  · exact binds_iff.mpr ⟨b, binding?_setBinding_self h.binds.lt b⟩
  · by_cases hgf : g = f
    · exact hgf ▸ .here
    · have hg : s.Inside g e := inside_of_parents (fun g => (hparents g).symm) hg
      rw [binds_iff, binding?_setBinding_of_ne fun hc => hgf hc.1, ← binds_iff] at hbinds
      exact inside_of_parents hparents (h.around g hg hbinds)

/-- A new binding is seen by all in the scope that saw none. -/
theorem innermost_of_unbound (hlt : f.index < s.all.size) (hnone : ∀ g, ¬ s.Innermost name e g)
    (hf : s.Inside f e) (b : Binding) : (s.setBinding f name b).Innermost name e f := by
  have hparents := parent?_setBinding s f name b
  refine ⟨inside_of_parents hparents hf, binds_iff.mpr ⟨b, binding?_setBinding_self hlt b⟩,
    fun g hg hbinds => ?_⟩
  by_cases hgf : g = f
  · exact hgf ▸ .here
  · have hg : s.Inside g e := inside_of_parents (fun g => (hparents g).symm) hg
    rw [binds_iff, binding?_setBinding_of_ne fun hc => hgf hc.1, ← binds_iff] at hbinds
    obtain ⟨k, hk, -⟩ := holder?_inside hbinds hg
    exact absurd (innermost_of_holder? hk) (hnone k)

/-- An assignment is refused if the binding that the name leads to may not be read yet, or is
constant. -/
inductive Refuses (s : Scopes) (e : ScopeRef) (name : String) : ErrorKind → String → Prop where
  | notInitialized {f : ScopeRef} {b : Binding} (hf : s.Innermost name e f)
      (hb : s.binding? f name = some b) (hv : b.value = none) :
      Refuses s e name .referenceError s!"Cannot access '{name}' before initialization"
  | constant {f : ScopeRef} {b : Binding} (hf : s.Innermost name e f)
      (hb : s.binding? f name = some b) (hv : b.value ≠ none) (hk : b.kind = .const) :
      Refuses s e name .typeError "Assignment to constant variable."

/-- Where an assignment goes: to the binding that the name leads to or, if it leads nowhere, to the
outermost scope. -/
inductive Leads (s : Scopes) (e : ScopeRef) (name : String) : ScopeRef → BindingKind → Prop where
  | bound {f : ScopeRef} {b : Binding} (hf : s.Innermost name e f) (hb : s.binding? f name = some b) :
      Leads s e name f b.kind
  | unbound {f : ScopeRef} (hnone : ∀ g, ¬ s.Innermost name e g) (hf : s.Inside f e)
      (hout : s.parent? f = none) : Leads s e name f .var

/-- One binding is set, and all others are as they were. -/
structure Sets (s t : Scopes) (f : ScopeRef) (name : String) (b : Binding) : Prop where
  written : t.binding? f name = some b
  others : ∀ g n, ¬ (g = f ∧ n = name) → t.binding? g n = s.binding? g n
  parents : ∀ g, t.parent? g = s.parent? g

theorem sets_setBinding (hf : f.index < s.all.size) (name : String) (b : Binding) :
    s.Sets (s.setBinding f name b) f name b :=
  ⟨binding?_setBinding_self hf b, fun _ _ h => binding?_setBinding_of_ne h b,
    parent?_setBinding s f name b⟩

theorem assignable_of_binding (hf : s.Innermost name e f) (hb : s.binding? f name = some b) :
    s.assignable e name = if !b.isInitialized then .error (.notInitialized name)
      else if !b.isMutable then .error .constant else .ok (f, b.kind) := by
  unfold binding? at hb
  unfold assignable
  rw [innermost_iff.mp hf]
  simp only [hb]

theorem assignable_of_none (h : s.holder? name e = none) :
    s.assignable e name = .ok (s.outermost e, .var) := by
  unfold assignable
  rw [h]

theorem not_refuses_of_writable (hf : s.Innermost name e f) (hb : s.binding? f name = some b)
    (hv : b.value ≠ none) (hk : b.kind ≠ .const) (kind : ErrorKind) (message : String) :
    ¬ s.Refuses e name kind message := by
  -- all bindings that the name leads to are one
  have hsame {g : ScopeRef} {d : Binding} (hg : s.Innermost name e g)
      (hd : s.binding? g name = some d) : d = b := by
    rw [hg.unique hf, hb] at hd
    exact (Option.some.inj hd).symm
  intro h
  cases h with
  | notInitialized hg hd hvalue => exact hv (hsame hg hd ▸ hvalue)
  | constant hg hd _ hconst => exact hk (hsame hg hd ▸ hconst)

theorem Refuses.unique {kind kind' : ErrorKind} {message message' : String}
    (h : s.Refuses e name kind message) (h' : s.Refuses e name kind' message') :
    kind = kind' ∧ message = message' := by
  cases h with
  | notInitialized hf hb hv =>
    cases h' with
    | notInitialized => exact ⟨rfl, rfl⟩
    | constant hg hd hvalue =>
      rw [hg.unique hf, hb] at hd
      cases hd
      exact absurd hv hvalue
  | constant hf hb hv hk =>
    cases h' with
    | constant => exact ⟨rfl, rfl⟩
    | notInitialized hg hd hvalue =>
      rw [hg.unique hf, hb] at hd
      cases hd
      exact absurd hvalue hv

theorem Leads.lt {kind : BindingKind} (h : s.Leads e name f kind) (he : e.index < s.all.size) :
    f.index < s.all.size := by
  cases h with
  | bound hf => exact hf.binds.lt
  | unbound hnone hf => exact Nat.lt_of_le_of_lt hf.le he

/-- What is set is what the name leads to from then on. -/
theorem Leads.innermost {kind : BindingKind} (h : s.Leads e name f kind)
    (he : e.index < s.all.size) (b : Binding) : (s.setBinding f name b).Innermost name e f := by
  have hlt := h.lt he
  cases h with
  | bound hf => exact hf.setBinding b
  | unbound hnone hf => exact innermost_of_unbound hlt hnone hf b

theorem not_refuses_of_none (hnone : ∀ g, ¬ s.Innermost name e g) (kind : ErrorKind)
    (message : String) : ¬ s.Refuses e name kind message := by
  intro h
  cases h with
  | notInitialized hg => exact hnone _ hg
  | constant hg => exact hnone _ hg

/-- An assignment can be made or is refused. -/
theorem assignable_cases (s : Scopes) (e : ScopeRef) (name : String) :
    (∃ x, s.assignable e name = .error x ∧ s.Refuses e name x.kind x.message) ∨
      ∃ f kind, s.assignable e name = .ok (f, kind) ∧ s.Leads e name f kind ∧
        (∀ b, s.binding? f name = some b → b.value ≠ none ∧ b.kind ≠ .const) ∧
        ∀ k message, ¬ s.Refuses e name k message := by
  cases h : s.holder? name e with
  | none =>
    have hinside := s.inside_outermost e
    have hnone (g : ScopeRef) : ¬ s.Innermost name e g := by
      rw [innermost_iff, h]
      exact (Option.some_ne_none g).symm
    refine .inr ⟨s.outermost e, .var, assignable_of_none h,
      .unbound hnone hinside (s.parent?_outermost e), fun b hb => ?_, not_refuses_of_none hnone⟩
    exact absurd (binds_iff.mpr ⟨b, hb⟩) (not_binds_of_holder?_none h hinside)
  | some f =>
    have hf := innermost_of_holder? h
    obtain ⟨⟨value, kind⟩, hb⟩ := binds_iff.mp hf.binds
    rw [assignable_of_binding hf hb]
    cases value with
    | none => exact .inl ⟨.notInitialized name, rfl, .notInitialized hf hb rfl⟩
    | some u =>
      have hv : (⟨some u, kind⟩ : Binding).value ≠ none := Option.some_ne_none u
      by_cases hk : kind = .const
      · subst hk
        exact .inl ⟨.constant, rfl, .constant hf hb hv rfl⟩
      · have hmutable : (⟨some u, kind⟩ : Binding).isMutable = true := by simp [Binding.isMutable, hk]
        refine .inr ⟨f, kind, by simp [Binding.isInitialized, hmutable], .bound hf hb, fun d hd => ?_,
          not_refuses_of_writable hf hb hv hk⟩
        rw [hb] at hd
        cases hd
        exact ⟨hv, hk⟩

end Scopes

section

variable {c : Context} {w w' : World} {e f : ScopeRef} {name : String} {v : Value} {b : Binding}

theorem lookup_of_innermost (hf : w.scopes.Innermost name e f)
    (hb : w.scopes.binding? f name = some b) :
    (∀ u, b.value = some u → readReference (.name name) e c w = .done u w) ∧
      (b.value = none → readReference (.name name) e c w = .broke (.raised .referenceError
        (Text.ofString s!"Cannot access '{name}' before initialization")) w) := by
  have hresolve : w.scopes.resolve e name = some b := by
    unfold Scopes.resolve
    rw [Scopes.innermost_iff.mp hf]
    exact hb
  constructor
  · intro u hu
    have hread : w.scopes.read e name = .ok u := by
      unfold Scopes.read
      simp only [hresolve, hu]
    change lookup e name c w = _
    unfold lookup
    simp only [hread]
  · intro hu
    have hread : w.scopes.read e name = .error (.notInitialized name) := by
      unfold Scopes.read
      simp only [hresolve, hu]
    change lookup e name c w = _
    unfold lookup
    simp only [hread]
    rfl

theorem assign_cases (c : Context) (w : World) (e : ScopeRef) (name : String) (v : Value) :
    (∃ kind message, w.scopes.Refuses e name kind message ∧
      writeReference (.name name) e v c w = .broke (.raised kind (Text.ofString message)) w) ∨
    ∃ f kind, w.scopes.Leads e name f kind ∧
      (∀ b, w.scopes.binding? f name = some b → b.value ≠ none ∧ b.kind ≠ .const) ∧
      (∀ k message, ¬ w.scopes.Refuses e name k message) ∧
      writeReference (.name name) e v c w =
        .done () { w with scopes := w.scopes.setBinding f name ⟨some v, kind⟩ } := by
  obtain ⟨heap, scopes, depth⟩ := w
  rcases scopes.assignable_cases e name with ⟨x, hx, hrefused⟩ | ⟨f, kind, hok, hleads, hfree, hnot⟩
  · refine .inl ⟨x.kind, x.message, hrefused, ?_⟩
    change assign e name v c ⟨heap, scopes, depth⟩ = _
    unfold assign
    simp only [hx]
  · refine .inr ⟨f, kind, hleads, hfree, hnot, ?_⟩
    change assign e name v c ⟨heap, scopes, depth⟩ = _
    unfold assign
    simp only [hok]

/-- To assign to a name, whether it is refused or not, to enter a scope, and to leave one. The list
holds the scopes that were entered, the current one first. -/
inductive Moves (c : Context) : World × List ScopeRef → World × List ScopeRef → Prop where
  | assigned {w w' : World} {e : ScopeRef} {es : List ScopeRef} (name : String) (v : Value)
      (h : writeReference (.name name) e v c w = .done () w') : Moves c (w, e :: es) (w', e :: es)
  | refused {w w' : World} {e : ScopeRef} {es : List ScopeRef} (name : String) (v : Value)
      {i : Interrupt} (h : writeReference (.name name) e v c w = .broke i w') :
      Moves c (w, e :: es) (w', e :: es)
  | entered {w w' : World} {e : ScopeRef} (es : List ScopeRef) (scope : Scope)
      (h : allocScope scope c w = .done e w') : Moves c (w, es) (w', e :: es)
  | left (w : World) (e : ScopeRef) (es : List ScopeRef) : Moves c (w, e :: es) (w, es)

/-- A binding that no assignment changes. -/
def Binding.Settled (b : Binding) : Prop := b.value = none ∨ b.kind = .const

theorem settled_writeReference (hb : w.scopes.binding? f name = some b) (hs : b.Settled)
    {n : String} {x : Course Unit} (hx : writeReference (.name n) e v c w = x) :
    (∀ w', x = .done () w' → w'.scopes.binding? f name = some b) ∧
      ∀ i w', x = .broke i w' → w'.scopes.binding? f name = some b := by
  subst hx
  rcases assign_cases c w e n v with ⟨kind, message, -, h⟩ | ⟨g, kind, -, hfree, -, h⟩
  · rw [h]
    refine ⟨fun w' hw => (nomatch hw), fun i w' hw => ?_⟩
    cases hw
    exact hb
  · rw [h]
    refine ⟨fun w' hw => ?_, fun i w' hw => nomatch hw⟩
    cases hw
    have hne : ¬ (f = g ∧ name = n) := by
      rintro ⟨rfl, rfl⟩
      obtain ⟨hv, hk⟩ := hfree b hb
      exact hs.elim hv hk
    exact (Scopes.binding?_setBinding_of_ne hne _).trans hb

theorem Moves.settled {x y : World × List ScopeRef} (h : Moves c x y)
    (hb : x.1.scopes.binding? f name = some b) (hs : b.Settled) :
    y.1.scopes.binding? f name = some b := by
  cases h with
  | assigned n v h => exact (settled_writeReference hb hs h).1 _ rfl
  | refused n v h => exact (settled_writeReference hb hs h).2 _ _ rfl
  | @entered w w' e es scope h =>
    obtain ⟨heap, scopes, depth⟩ := w
    cases h
    have hlt : f.index < scopes.all.size := (Scopes.binds_iff.mpr ⟨b, hb⟩).lt
    have hget := Scopes.get_alloc_of_lt scopes scope hlt
    exact (congrArg (fun s : Scope => s.bindings.get? name) hget).trans hb
  | left w e es => exact hb

/-- Through any number of moves, a constant keeps its value and what may not be read stays so. -/
theorem moves_settled {x y : World × List ScopeRef} (h : Relation.ReflTransGen (Moves c) x y)
    (hb : x.1.scopes.binding? f name = some b) (hs : b.Settled) :
    y.1.scopes.binding? f name = some b := by
  induction h with
  | refl => exact hb
  | tail _ hmove ih => exact hmove.settled ih hs

/-- An assignment to a name is refused exactly if the binding that the name leads to may not be read
yet or is constant, and then the state is as before. Otherwise it sets one binding, which the name
then leads to, and who sees this binding reads the value. However assignments are made while scopes
are entered and left, a constant keeps its value, and what may not be read is not read. -/
theorem assignment_is_precise (he : e.index < w.scopes.all.size) (c : Context) (name : String)
    (v : Value) :
    (∀ i w', writeReference (.name name) e v c w = .broke i w' ↔ w' = w ∧
      ∃ kind message, w.scopes.Refuses e name kind message ∧
        i = .raised kind (Text.ofString message)) ∧
    ((∀ kind message, ¬ w.scopes.Refuses e name kind message) → ∃ t f kind,
      writeReference (.name name) e v c w = .done () { w with scopes := t } ∧
      w.scopes.Leads e name f kind ∧ w.scopes.Sets t f name ⟨some v, kind⟩ ∧
      t.Innermost name e f ∧ (∀ g, w.scopes.Innermost name g f → t.Innermost name g f) ∧
      ∀ g, t.Innermost name g f →
        readReference (.name name) g c { w with scopes := t } = .done v { w with scopes := t }) ∧
    ∀ es w' es', Relation.ReflTransGen (Moves c) (w, es) (w', es') →
      ∀ f n b, w.scopes.binding? f n = some b → b.value = none ∨ b.kind = .const →
        w'.scopes.binding? f n = some b ∧ ∀ g, w'.scopes.Innermost n g f →
          (∀ u, b.value = some u → readReference (.name n) g c w' = .done u w') ∧
          (b.value = none → readReference (.name n) g c w' = .broke (.raised .referenceError
            (Text.ofString s!"Cannot access '{n}' before initialization")) w') := by
  refine ⟨fun i w' => ?_, fun hfree => ?_, fun es w' es' hmoves f n b hb hs => ?_⟩
  · rcases assign_cases c w e name v with ⟨kind, message, hrefused, h⟩ | ⟨f, kind, -, -, hfree, h⟩
    · rw [h]
      constructor
      · intro hi
        cases hi
        exact ⟨rfl, kind, message, hrefused, rfl⟩
      · rintro ⟨rfl, kind', message', hrefused', rfl⟩
        obtain ⟨rfl, rfl⟩ := hrefused.unique hrefused'
        rfl
    · rw [h]
      constructor
      · exact fun hi => nomatch hi
      · rintro ⟨-, kind, message, hrefused, -⟩
        exact absurd hrefused (hfree kind message)
  · rcases assign_cases c w e name v with ⟨kind, message, hrefused, -⟩ | ⟨f, kind, hleads, -, -, h⟩
    · exact absurd hrefused (hfree kind message)
    · have hlt := hleads.lt he
      have hread (g : ScopeRef)
          (hg : (w.scopes.setBinding f name ⟨some v, kind⟩).Innermost name g f) :=
        (lookup_of_innermost (c := c)
          (w := { w with scopes := w.scopes.setBinding f name ⟨some v, kind⟩ }) hg
          (Scopes.binding?_setBinding_self hlt _)).1 v rfl
      exact ⟨_, f, kind, h, hleads, Scopes.sets_setBinding hlt name _, hleads.innermost he _,
        fun g hg => hg.setBinding _, hread⟩
  · have hstays := moves_settled hmoves hb hs
    exact ⟨hstays, fun g hg => lookup_of_innermost hg hstays⟩

/-- A constant in the outermost scope, and a name that may not be read yet in a scope inside it. -/
def unreadWorld : World where
  heap := {}
  scopes := ⟨#[{ bindings := [("k", ⟨some .null, .const⟩), ("x", ⟨some .null, .var⟩)] },
    { parent := some ⟨0⟩, bindings := [("x", ⟨none, .let_⟩)] }]⟩

theorem unreadWorld_assigns :
    1 < unreadWorld.scopes.all.size ∧
      writeReference (.name "x") ⟨1⟩ .null (Execution.outermostContext "" false) unreadWorld =
        .broke (.raised .referenceError
          (Text.ofString "Cannot access 'x' before initialization")) unreadWorld ∧
      writeReference (.name "k") ⟨1⟩ .null (Execution.outermostContext "" false) unreadWorld =
        .broke (.raised .typeError (Text.ofString "Assignment to constant variable.")) unreadWorld ∧
      ∃ t, writeReference (.name "g") ⟨1⟩ .null (Execution.outermostContext "" false) unreadWorld =
          .done () { unreadWorld with scopes := t } ∧
        t.binding? ⟨0⟩ "g" = some ⟨some .null, .var⟩ := by
  have he : (⟨1⟩ : ScopeRef).index < unreadWorld.scopes.all.size := by decide
  have hp : unreadWorld.scopes.parent? ⟨1⟩ = some ⟨0⟩ := by decide
  have hx : unreadWorld.scopes.holder? "x" ⟨1⟩ = some ⟨1⟩ := Scopes.holder?_of_binds (by decide)
  have hk : unreadWorld.scopes.holder? "k" ⟨1⟩ = some ⟨0⟩ :=
    (Scopes.holder?_of_parent (by decide) hp).trans (Scopes.holder?_of_binds (by decide))
  have hg : unreadWorld.scopes.holder? "g" ⟨1⟩ = none := by
    rw [Scopes.holder?_of_parent (by decide) hp, Scopes.holder?]
    rfl
  have hnone (f : ScopeRef) : ¬ unreadWorld.scopes.Innermost "g" ⟨1⟩ f := by
    rw [Scopes.innermost_iff, hg]
    exact (Option.some_ne_none f).symm
  have hprecise (name : String) :=
    assignment_is_precise he (Execution.outermostContext "" false) name .null
  refine ⟨he, ((hprecise "x").1 _ _).mpr ⟨rfl, _, _, ?_, rfl⟩,
    ((hprecise "k").1 _ _).mpr ⟨rfl, _, _, ?_, rfl⟩, ?_⟩
  · exact .notInitialized (Scopes.innermost_iff.mpr hx) rfl rfl
  · exact .constant (Scopes.innermost_iff.mpr hk) rfl (Option.some_ne_none _) rfl
  · obtain ⟨t, f, kind, hdone, hleads, hsets, -⟩ :=
      (hprecise "g").2.1 (Scopes.not_refuses_of_none hnone)
    refine ⟨t, hdone, ?_⟩
    cases hleads with
    | bound hf => exact absurd hf (hnone f)
    | unbound _ hf hout =>
      have hf : f = ⟨0⟩ := by
        cases hf with
        | here =>
          rw [hp] at hout
          cases hout
        | around hq hf =>
          rw [hp] at hq
          cases hq
          cases hf with
          | here => rfl
          | around hq => exact absurd (Scopes.parent?_lt hq) (Nat.not_lt_zero _)
      exact hf ▸ hsets.written

end

end Stepper.Machine
