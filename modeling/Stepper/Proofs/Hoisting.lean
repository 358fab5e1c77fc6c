import Stepper.Proofs.Persistence

/-!
Where declarations put their names. To run a `var` declaration is to assign to its names; what keeps
them in their function is that all of them have been bound in the scope of the call before the body
runs. The walk that finds them meets every node of the body that stands in no nested function or
class. From then on an assignment to such a name, made anywhere inside the scope of the call, leaves
all scopes outside it alone. Where nothing has bound the name before, as in the static block of a
class, the assignment goes to the outermost scope.
-/
namespace Stepper.Syntax.Node

variable {n m : Node} {ns : List Node}

/-- What stands in a node, and in no function or class inside it. -/
inductive InScope : Node → Node → Prop where
  | child {n c : Node} (hc : c ∈ n.children) : InScope n c
  | inside {n c m : Node} (hc : c ∈ n.children) (hopen : c.closesScope = false)
      (hm : InScope c m) : InScope n m

theorem inScope_iff : n.InScope m ↔
    ∃ c ∈ n.children, m = c ∨ c.closesScope = false ∧ c.InScope m := by
  constructor
  · rintro (hc | ⟨hc, hopen, hm⟩)
    · exact ⟨m, hc, .inl rfl⟩
    · exact ⟨_, hc, .inr ⟨hopen, hm⟩⟩
  · rintro ⟨c, hc, rfl | ⟨hopen, hm⟩⟩
    · exact .child hc
    · exact .inside hc hopen hm

theorem mem_walkScopeAll : m ∈ walkScopeAll ns ↔
    ∃ n ∈ ns, m = n ∨ n.closesScope = false ∧ n.InScope m := by
  induction ns using walkScopeAll.induct with
  | case1 => simp [walkScopeAll]
  | case2 n rest hcloses ih =>
    rw [walkScopeAll, if_pos hcloses, List.mem_cons, ih]
    simp only [List.mem_cons, exists_eq_or_imp, hcloses, Bool.true_eq_false, false_and, or_false]
  | case3 n rest hopen ih =>
    rw [walkScopeAll, if_neg hopen, List.mem_cons, ih]
    simp only [List.mem_cons, List.mem_append, or_and_right, exists_or, exists_eq_left,
      eq_false_of_ne_true hopen, true_and, inScope_iff (n := n), or_assoc]

/-- The walk over a scope meets what stands in it, and nothing else. -/
theorem mem_walkScope : m ∈ n.walkScope ↔ n.InScope m :=
  mem_walkScopeAll.trans inScope_iff.symm

end Stepper.Syntax.Node

namespace Stepper.Machine

open Syntax

namespace Scopes

variable {s s' : Scopes} {e f g p : ScopeRef} {name : String}

def Binds (s : Scopes) (e : ScopeRef) (name : String) : Prop :=
  ((s.get e).bindings.get? name).isSome = true

/-- A scope and those that lie in it. -/
inductive Inside (s : Scopes) (f : ScopeRef) : ScopeRef → Prop where
  | here : Inside s f f
  | around {e p : ScopeRef} (hp : s.parent? e = some p) (h : Inside s f p) : Inside s f e

theorem get_of_le (h : s.all.size ≤ e.index) : s.get e = {} := by
  simp [get, Array.getD_eq_getD_getElem?, Array.getElem?_eq_none h]

theorem Binds.lt (h : s.Binds e name) : e.index < s.all.size :=
  Nat.lt_of_not_le fun hle => by simp [Binds, get_of_le hle] at h

theorem lt_of_parent? (h : s.parent? e = some p) : e.index < s.all.size :=
  Nat.lt_of_not_le fun hle => by simp [parent?, get_of_le hle] at h

theorem Evolves.binds (h : s.Evolves s') (he : s.Binds e name) : s'.Binds e name :=
  (h.scope e he.lt).bound name he

theorem Evolves.inside (h : s.Evolves s') (he : s.Inside f e) : s'.Inside f e := by
  induction he with
  | here => exact .here
  | around hp _ ih =>
    exact .around ((h.parent? (lt_of_parent? hp)).trans hp) ih

theorem holder?_of_binds (he : s.Binds e name) : s.holder? name e = some e := by
  unfold Binds at he
  rw [holder?, if_pos he]

theorem holder?_of_parent (he : ¬ s.Binds e name) (hp : s.parent? e = some p) :
    s.holder? name e = s.holder? name p := by
  unfold Binds at he
  rw [holder?, if_neg he]
  split
  · simp_all
  · simp_all

/-- Seen from inside a scope that binds a name, the innermost scope to bind it is inside, too. -/
theorem holder?_inside (hf : s.Binds f name) (he : s.Inside f e) :
    ∃ g, s.holder? name e = some g ∧ s.Inside f g := by
  induction he with
  | here => exact ⟨f, holder?_of_binds hf, .here⟩
  | @around e p hp h ih =>
    by_cases he : s.Binds e name
    · exact ⟨e, holder?_of_binds he, .around hp h⟩
    · rw [holder?_of_parent he hp]
      exact ih

theorem assignable_inside (hf : s.Binds f name) (he : s.Inside f e) {kind : BindingKind}
    (h : s.assignable e name = .ok (g, kind)) : s.Inside f g := by
  obtain ⟨g', hg', hinside⟩ := holder?_inside hf he
  unfold assignable at h
  rw [hg'] at h
  grind

theorem inside_outermost (s : Scopes) (e : ScopeRef) : s.Inside (s.outermost e) e := by
  fun_induction outermost s e with
  | case1 e hp => exact .here
  | case2 e p hp ih => exact .around hp ih

end Scopes

/-- The same objects, and the same scopes outside one of them. -/
structure World.SparesOutside (f : ScopeRef) (w v : World) : Prop where
  heap : v.heap = w.heap
  scope : ∀ g, ¬ w.scopes.Inside f g → v.scopes.get g = w.scopes.get g

theorem World.SparesOutside.refl (f : ScopeRef) (w : World) : w.SparesOutside f w :=
  ⟨rfl, fun _ _ => rfl⟩

/-- Something is done at once that leaves all alone but what is inside a scope. -/
def Course.SparesOutside {α : Type} (f : ScopeRef) (w : World) (x : Course α) : Prop :=
  ∃ o : Outcome α, x = o.course ∧ w.SparesOutside f o.world

namespace Action

variable {w : World} {e f : ScopeRef} {name : String} (a : Value) (c : Context)

theorem sparesOutside_setBinding {g : ScopeRef} (hg : w.scopes.Inside f g) (b : Binding) :
    w.SparesOutside f { w with scopes := w.scopes.setBinding g name b } :=
  ⟨rfl, fun _ hh => Scopes.get_modify_of_ne _ _ fun hgh => hh (hgh ▸ hg)⟩

theorem assign_sparesOutside (hf : w.scopes.Binds f name) (he : w.scopes.Inside f e) :
    (assign e name a c w).SparesOutside f w := by
  cases h : w.scopes.assignable e name with
  | ok p =>
    refine ⟨.done () { w with scopes := w.scopes.setBinding p.1 name ⟨some a, p.2⟩ }, ?_, ?_⟩
    · simp [assign, h, Outcome.course]
    · exact sparesOutside_setBinding (Scopes.assignable_inside hf he h) _
  | error x =>
    refine ⟨.broke (.raised x.kind x.message) w, ?_, .refl f w⟩
    simp [assign, h, Outcome.course]

theorem declare_sparesOutside (he : w.scopes.Inside f e) (kind : BindingKind) (v : Option Value) :
    (declare e name kind v c w).SparesOutside f w := by
  refine ⟨.done () { w with scopes := w.scopes.declare e name kind v }, rfl, ?_⟩
  unfold Scopes.declare
  split
  · exact .refl f w
  · exact sparesOutside_setBinding he _

/-- Whichever way a name is bound inside a scope, nothing outside changes, if the scope binds the
names that a `var` declares. -/
theorem bindName_sparesOutside {mode : BindMode} (hf : mode = .var → w.scopes.Binds f name)
    (hmode : mode ≠ .assign) (he : w.scopes.Inside f e) :
    (bindName name a e mode c w).SparesOutside f w := by
  cases mode with
  | assign => exact absurd rfl hmode
  | var => exact assign_sparesOutside a c (hf rfl) he
  | declare kind => exact declare_sparesOutside c he kind (some a)

/-- A `var` declaration of a name that no scope around binds makes a new name of the outermost
scope, as it happens in the static block of a class. -/
theorem bindName_of_unbound (he : w.scopes.holder? name e = none) :
    ∃ g, w.scopes.parent? g = none ∧ w.scopes.Inside g e ∧ bindName name a e .var c w =
      .done () { w with scopes := w.scopes.setBinding g name ⟨some a, .var⟩ } := by
  refine ⟨_, w.scopes.parent?_outermost e, w.scopes.inside_outermost e, ?_⟩
  change assign e name a c w = _
  simp [assign, Scopes.assignable, he]

/-- The names that a node declares by `var`, as a declaration or as the head of a loop. -/
def variableNames (source : String) (n : Node) : List String :=
  match n.kind with
  | .variableDeclaration => n.declaredNames source
  | .forInStatement =>
    match n.child? .kind with
    | some k => if k.text source == "var" then Node.boundNames? source (n.child? .left) else []
    | none => []
  | _ => []

/-- The names that are bound ahead are those of the declarations in the scope of the body. -/
theorem mem_varNames {source : String} {body : Node} :
    name ∈ varNames source body ↔ ∃ n, body.InScope n ∧ name ∈ variableNames source n := by
  have heq : varNames source body = body.walkScope.flatMap (variableNames source) := rfl
  rw [heq, List.mem_flatMap]
  exact exists_congr fun n => and_congr_left' Node.mem_walkScope

theorem declare_binds (he : e.index < w.scopes.all.size) (kind : BindingKind) (v : Option Value) :
    (declare e name kind v c w).Ends fun _ u => u.scopes.Binds e name := by
  change (w.scopes.declare e name kind v).Binds e name
  unfold Scopes.declare
  split
  · exact (‹_ ∧ _›).2
  · simp [Scopes.Binds, Scopes.setBinding, Scopes.get_modify_self _ _ he]

/-- When the body of a function begins to run, its scope binds all names that the body declares by
`var`. -/
theorem hoistFunction_binds {body : Node} {c : Context}
    (hc : c.inner.Obeys fun w x => x.Evolves w) (he : e.index < w.scopes.all.size) :
    (hoistFunction body e c w).Ends fun _ v =>
      ∀ n, body.InScope n → ∀ name ∈ variableNames c.source n, v.scopes.Binds e name := by
  have hdeclared : (each (fun name => declare e name .var (some .undefined))
      (varNames c.source body) c w).Ends fun _ v =>
        ∀ name ∈ varNames c.source body, v.scopes.Binds e name :=
    each_ends (I := fun v => e.index < v.scopes.all.size) (Q := fun name v => v.scopes.Binds e name)
      (fun _ _ hv hlt => Nat.lt_of_lt_of_le hlt hv.scopes.size)
      (fun _ _ _ hv => hv.scopes.binds)
      (fun name => (composed_declare trivial name .var (some .undefined)).evolves hc)
      (fun _ _ hlt => declare_binds c hlt .var (some .undefined)) _ he
  have hblock (v : World) : (hoistBlock body.namedChildren e c v).Evolves v :=
    (composed_hoistBlock Means.hereditary_all trivial fun n _ => Means.expression_all n).evolves hc v
  change ((each _ (varNames c.source body) c w).bind fun _ v =>
    hoistBlock body.namedChildren e c v).Ends _
  refine hdeclared.bind fun _ v hv => (hblock v).ends.imp fun _ u hu n hn name hname => ?_
  exact hu.scopes.binds (hv name (mem_varNames.2 ⟨n, hn, hname⟩))

/-- So a `var` declaration that stands in the body of a function, in no function or class inside it,
stays in the function: at whatever time, and however deep inside the scope of the call its names are
assigned to, nothing outside changes. -/
theorem var_sparesOutside {body : Node} {c : Context}
    (hc : c.inner.Obeys fun w x => x.Evolves w) (he : e.index < w.scopes.all.size) :
    (hoistFunction body e c w).Ends fun _ v =>
      ∀ n, body.InScope n → ∀ name ∈ variableNames c.source n, ∀ u, v.Evolves u →
        ∀ g, u.scopes.Inside e g → ∀ a d, (bindName name a g .var d u).SparesOutside e u :=
  (hoistFunction_binds hc he).imp fun _ _ hv n hn name hname _ hu _ hg a d =>
    bindName_sparesOutside a d (fun _ => hu.scopes.binds (hv n hn name hname)) nofun hg

end Action
end Stepper.Machine
