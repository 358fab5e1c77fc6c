import Stepper.Proofs.Fencing
import Stepper.Proofs.Hoisting

/-!
What declarations declare. The names of a target are found twice: once by a walk over its tree, for
those who have to know them beforehand, and once by taking a value apart. Whenever a declaration
comes to its end, the two agree: it has declared the names of its target in its scope, each with a
value, and nothing else there or anywhere else. The defaults and computed keys of the target may run
any code on the way; that code assigns to variables, but it declares nothing in scopes there were
before. So after a declaration its names can be read, and a loop that makes a new scope for each of
its rounds finds the names of its head in the scope of the round before.
-/
namespace Stepper.Syntax.Node

variable {source : String} {n c : Node} {ns : List Node}

/-! ### Names and shapes of targets -/

/-- What may stand between the brackets of an array pattern: marks, comments and targets. -/
def isItem (c : Node) : Bool :=
  c.named || c.kind.isComment || c.isToken "[" || c.isToken "]" || c.isToken ","

/-- What may stand between the braces of an object pattern, apart from marks and comments. -/
def isSlot (c : Node) : Bool :=
  match c.kind with
  | .pairPattern | .shorthandPropertyIdentifierPattern | .objectAssignmentPattern
  | .restPattern => true
  | _ => false

/-- The nodes that are no marks and no comments. -/
def parts (ns : List Node) : List Node := ns.filter fun c => c.named && !c.kind.isComment

mutual
/-- Whether a node is built as targets of declarations are: names, array and object patterns with
defaults, renamings and rests, one target in each rest, and no parentheses. What cannot be declared,
like a property, may stand in it; to bind that is refused. -/
def isTarget (n : Node) : Bool :=
  match n with
  | ⟨kind, _, _, _, _, _, _, _, _, _, cs⟩ =>
    match kind with
    | .assignmentPattern | .objectAssignmentPattern => isTargetAt .left cs
    | .pairPattern => isTargetAt .value cs
    | .restPattern =>
      isTargetAll cs && (parts cs).length ≤ 1
    | .arrayPattern => isTargetAll cs && cs.all isItem
    | .objectPattern =>
      isTargetAll cs && (parts cs).all isSlot
    | .parenthesizedExpression => false
    | _ => true
termination_by structural n

/-- Whether the first of several nodes that is the given part is a target. -/
def isTargetAt (f : Field) (ns : List Node) : Bool :=
  match ns with
  | [] => true
  | n :: ns => if n.field == some f then n.isTarget else isTargetAt f ns
termination_by structural ns

/-- Whether all named nodes are targets, comments left out. -/
def isTargetAll (ns : List Node) : Bool :=
  match ns with
  | [] => true
  | n :: ns => (if n.named && !n.kind.isComment then n.isTarget else true) && isTargetAll ns
termination_by structural ns
end

/-- A declaration by `let` or `const`, with targets. -/
structure IsLexical (source : String) (n : Node) : Prop where
  kind : n.kind = .lexicalDeclaration
  word : n.declarationWord source ≠ "var"
  target : ∀ d ∈ n.children, d.kind = .variableDeclarator → ∀ t, d.child? .name = some t →
    t.isTarget = true

theorem boundNamesAt_eq (f : Field) (ns : List Node) :
    boundNamesAt source f ns = boundNames? source (ns.find? fun c => c.field == some f) := by
  induction ns with
  | nil => rfl
  | cons c ns ih =>
    rw [boundNamesAt, List.find?_cons]
    cases c.field == some f with
    | true => rfl
    | false => exact ih

theorem parts_cons_of_pos (h : c.named = true) (hcomment : c.kind.isComment = false) :
    parts (c :: ns) = c :: parts ns := List.filter_cons_of_pos (by simp [h, hcomment])

theorem parts_cons_of_neg (h : c.named = false ∨ c.kind.isComment = true) :
    parts (c :: ns) = parts ns := List.filter_cons_of_neg (by rcases h with h | h <;> simp [h])

theorem mem_parts_cons {d : Node} (h : d ∈ parts ns) : d ∈ parts (c :: ns) :=
  List.mem_filter.mpr ⟨List.mem_cons_of_mem c (List.mem_filter.mp h).1, (List.mem_filter.mp h).2⟩

/-- The names of nodes in a row are those of their parts, in order. -/
theorem boundNamesAll_eq (ns : List Node) :
    boundNamesAll source ns = (parts ns).flatMap (boundNames source) := by
  induction ns with
  | nil => rfl
  | cons c ns ih =>
    rw [boundNamesAll, parts, List.filter_cons, ih]
    cases c.named && !c.kind.isComment <;> rfl

/-- A name binds itself. -/
theorem boundNames_name (h : n.kind = .identifier ∨ n.kind = .shorthandPropertyIdentifierPattern) :
    n.boundNames source = [n.text source] := by
  obtain ⟨kind, _⟩ := n
  rcases h with rfl | rfl <;> rfl

/-- A default binds what is in front of it. -/
theorem boundNames_default (h : n.kind = .assignmentPattern ∨ n.kind = .objectAssignmentPattern) :
    n.boundNames source = boundNames? source (n.child? .left) := by
  obtain ⟨kind, _⟩ := n
  rcases h with rfl | rfl <;> exact boundNamesAt_eq ..

/-- A pair binds what its value binds. -/
theorem boundNames_pair (h : n.kind = .pairPattern) :
    n.boundNames source = boundNames? source (n.child? .value) := by
  obtain ⟨kind, _⟩ := n
  cases h
  exact boundNamesAt_eq ..

/-- A pattern binds what its parts bind. -/
theorem boundNames_parts
    (h : n.kind = .restPattern ∨ n.kind = .arrayPattern ∨ n.kind = .objectPattern) :
    n.boundNames source = n.namedChildren.flatMap (boundNames source) := by
  obtain ⟨kind, _⟩ := n
  rcases h with rfl | rfl | rfl <;> exact boundNamesAll_eq ..

/-- A rest with one target has the names of this target. -/
theorem boundNames_rest (h : n.kind = .restPattern) (hn : n.isTarget = true)
    (hc : n.namedChildren.head? = some c) : n.boundNames source = c.boundNames source := by
  have hone : n.namedChildren.length ≤ 1 := by
    obtain ⟨kind, _⟩ := n
    cases h
    exact of_decide_eq_true (Bool.and_eq_true_iff.mp hn).2
  obtain ⟨cs, hcs⟩ := List.head?_eq_some_iff.mp hc
  obtain rfl : cs = [] := List.eq_nil_of_length_eq_zero (by simpa [hcs] using hone)
  rw [boundNames_parts (.inl h), hcs, List.flatMap_singleton]

theorem isTargetAt_iff {f : Field} : isTargetAt f ns = true ↔
    ∀ c, (ns.find? fun c => c.field == some f) = some c → c.isTarget = true := by
  induction ns with
  | nil => simp [isTargetAt]
  | cons c ns ih =>
    rw [isTargetAt, List.find?_cons]
    cases c.field == some f with
    | true => simp
    | false => exact ih

/-- Nodes in a row are targets if their parts are. -/
theorem isTargetAll_iff : isTargetAll ns = true ↔
    ∀ c ∈ parts ns, c.isTarget = true := by
  induction ns with
  | nil => simp [isTargetAll, parts]
  | cons c ns ih =>
    rw [isTargetAll, Bool.and_eq_true, ih, parts, parts, List.filter_cons]
    cases c.named && !c.kind.isComment <;> simp

theorem isTarget_default (h : n.kind = .assignmentPattern ∨ n.kind = .objectAssignmentPattern)
    (hn : n.isTarget = true) (hc : n.child? .left = some c) : c.isTarget = true := by
  obtain ⟨kind, _⟩ := n
  rcases h with rfl | rfl <;> exact isTargetAt_iff.mp hn c hc

theorem isTarget_pair (h : n.kind = .pairPattern) (hn : n.isTarget = true)
    (hc : n.child? .value = some c) : c.isTarget = true := by
  obtain ⟨kind, _⟩ := n
  cases h
  exact isTargetAt_iff.mp hn c hc

/-- The parts of a pattern are targets. -/
theorem isTarget_part
    (h : n.kind = .restPattern ∨ n.kind = .arrayPattern ∨ n.kind = .objectPattern)
    (hn : n.isTarget = true) (hc : c ∈ n.namedChildren) : c.isTarget = true := by
  obtain ⟨kind, _⟩ := n
  rcases h with rfl | rfl | rfl <;>
    exact isTargetAll_iff.mp (Bool.and_eq_true_iff.mp hn).1 c hc

/-- What stands in an array pattern is an item. -/
theorem isItem_of_array (h : n.kind = .arrayPattern) (hn : n.isTarget = true)
    (hc : c ∈ n.children) : c.isItem = true := by
  obtain ⟨kind, _⟩ := n
  cases h
  exact List.all_eq_true.mp (Bool.and_eq_true_iff.mp hn).2 c hc

theorem isSlot_of_object (h : n.kind = .objectPattern) (hn : n.isTarget = true)
    (hc : c ∈ n.namedChildren) : c.isSlot = true := by
  obtain ⟨kind, _⟩ := n
  cases h
  exact List.all_eq_true.mp (Bool.and_eq_true_iff.mp hn).2 c hc

end Stepper.Syntax.Node

namespace Stepper.Machine

open Syntax

variable {α β : Type} {source : String} {kind : BindingKind} {names more : List String}
  {e : ScopeRef}

namespace Scopes

variable {s s' s'' : Scopes}

/-- Exactly these names have been declared, all in one scope: each has a value there, and all other
bindings of the scopes there were have at most been assigned to. -/
structure Declares (kind : BindingKind) (names : List String) (e : ScopeRef) (s s' : Scopes) : Prop
    extends s.Spares (fun f x => ¬ (f = e ∧ x ∈ names)) s' where
  declared : ∀ x ∈ names, ∃ v, s'.binding? e x = some ⟨some v, kind⟩

/-- What spares all bindings declares nothing. -/
theorem Spares.declares (h : s.Spares (fun _ _ => True) s') (kind : BindingKind) (e : ScopeRef) :
    s.Declares kind [] e s' :=
  ⟨h.mono fun _ _ _ => trivial, fun _ hx => absurd hx List.not_mem_nil⟩

/-- A name that has been declared keeps a value while others are declared. -/
theorem Declares.trans (he : e.index < s.all.size) (h : s.Declares kind names e s')
    (h' : s'.Declares kind more e s'') : s.Declares kind (names ++ more) e s'' := by
  have hsub {ns : List String} (hns : ∀ x ∈ ns, x ∈ names ++ more) (f : ScopeRef) (x : String)
      (hx : ¬ (f = e ∧ x ∈ names ++ more)) : ¬ (f = e ∧ x ∈ ns) := fun h => hx ⟨h.1, hns x h.2⟩
  have hspares := (h.toSpares.mono (hsub fun x => List.mem_append_left more)).trans
    (h'.toSpares.mono (hsub fun x => List.mem_append_right names))
  refine ⟨hspares, fun x hx => ?_⟩
  by_cases hmore : x ∈ more
  · exact h'.declared x hmore
  · obtain ⟨v, hv⟩ := h.declared x ((List.mem_append.mp hx).resolve_right hmore)
    have hkept := h'.binding e x (Nat.lt_of_lt_of_le he h.size) fun hc => hmore hc.2
    rw [hv] at hkept
    exact hkept.initialized

/-- A name that is declared is the one that is there then. -/
theorem declares_declare (hkind : kind ≠ .var) (he : e.index < s.all.size) (x : String) (v : Value) :
    s.Declares kind [x] e (s.declare e x kind (some v)) := by
  refine ⟨spares_declare (fun f y hy hplace => hy ⟨hplace.1, by simp [hplace.2]⟩) s kind _, ?_⟩
  intro y hy
  obtain rfl := List.mem_singleton.mp hy
  exact ⟨v, by rw [declare, if_neg fun h => hkind h.1, binding?_setBinding_self he]⟩

/-- A name that its scope gives a value can be read there. -/
theorem read_of_binding {x : String} {v : Value} (h : s.binding? e x = some ⟨some v, kind⟩) :
    s.read e x = .ok v := by
  have hb : (s.get e).bindings.get? x = some ⟨some v, kind⟩ := h
  have hbinds : s.Binds e x := by simp [Binds, hb]
  simp only [read, resolve, holder?_of_binds hbinds, hb]

end Scopes

/-! ### Actions that declare names -/

/-- An evaluator that declares the names of a target, and otherwise nothing in scopes there were. -/
structure Evaluator.Declares (source : String) (m : Evaluator) : Prop where
  spares : ∀ S, m.Spares S
  bind : ∀ n v e kind (w : World), n.isTarget = true → kind ≠ .var → e.index < w.scopes.all.size →
    (m.bind n v e (.declare kind) w).Ends fun _ u =>
      w.scopes.Declares kind (n.boundNames source) e u.scopes

namespace Action

/-- An action that has declared exactly these names when it comes to a value. -/
def Declares (source : String) (kind : BindingKind) (names : List String) (e : ScopeRef)
    (x : Action α) : Prop :=
  ∀ c : Context, c.source = source → c.inner.Declares source → ∀ w : World,
    e.index < w.scopes.all.size → (x c w).Ends fun _ u => w.scopes.Declares kind names e u.scopes

/-- What is done in turn declares the names of each part. -/
theorem Declares.bind {x : Action α} {f : α → Action β} (hx : x.Declares source kind names e)
    (hf : ∀ a, (f a).Declares source kind more e) :
    (x >>= f).Declares source kind (names ++ more) e := by
  intro c hc hinner w he
  refine (hx c hc hinner w he).bind fun a v hv => ?_
  have he' := Nat.lt_of_lt_of_le he hv.size
  exact (hf a c hc hinner v he').imp fun _ _ hu => hv.trans he hu

/-- What is composed without a declaration declares nothing. -/
theorem declares_of_composed {x : Action α} (hx : ∀ S, x.Composed (.sparing S) {}) :
    x.Declares source kind [] e := by
  intro c _ hinner w _
  have hspares := ((hx fun f => f.index < w.scopes.all.size).spares c (hinner.spares _) w
    fun _ hf => hf).ends
  refine hspares.imp fun _ u hu => Scopes.Spares.declares ?_ kind e
  exact ⟨hu.toEvolves, fun f x hf _ => hu.binding f x hf hf⟩

/-- What declares nothing in any scope may come first. -/
theorem declares_bind_of_composed {x : Action α} {f : α → Action β}
    (hx : ∀ S, x.Composed (.sparing S) {}) (hf : ∀ a, (f a).Declares source kind names e) :
    (x >>= f).Declares source kind names e :=
  Declares.bind (declares_of_composed hx) hf

theorem bind_pure (x : Action α) : x >>= pure = x :=
  funext fun c => funext fun w => (x c w).bind_done_self

theorem declares_pure (a : α) : (pure a : Action α).Declares source kind [] e :=
  declares_of_composed fun _ => composed_pure a

/-- What never comes to a value has declared whatever names one likes when it does. -/
theorem declares_invalidTarget (n : Node) (names : List String) :
    (invalidTarget n).Declares source kind names e := fun _ _ _ _ _ => trivial

theorem declares_ite {p : Prop} [Decidable p] {x y : Action α}
    (hx : p → x.Declares source kind names e) (hy : ¬ p → y.Declares source kind names e) :
    (if p then x else y).Declares source kind names e := by
  split
  · exact hx ‹p›
  · exact hy ‹¬ p›

theorem declares_source_bind {f : String → Action α}
    (hf : (f source).Declares source kind names e) :
    (Action.source >>= f).Declares source kind names e := by
  rintro c rfl
  exact hf c rfl

theorem declares_textOf_bind {n : Node} {f : String → Action α}
    (hf : (f (n.text source)).Declares source kind names e) :
    (textOf n >>= f).Declares source kind names e := by
  rintro c rfl
  exact hf c rfl

theorem declares_part_bind {o : Option Node} {f : Node → Action α}
    (hf : ∀ m, o = some m → (f m).Declares source kind names e) :
    (part o >>= f).Declares source kind names e := by
  cases o with
  | none => exact fun _ _ _ _ _ => trivial
  | some m => exact hf m rfl

/-- A list declares the names of its members, in order. -/
theorem declares_each {f : α → Action Unit} {g : α → List String} {as : List α}
    (hf : ∀ a ∈ as, (f a).Declares source kind (g a) e) :
    Declares source kind (as.flatMap g) e (each f as) := by
  induction as with
  | nil => exact declares_pure ()
  | cons a as ih =>
    rw [each_cons]
    exact (hf a List.mem_cons_self).bind fun _ => ih fun b hb => hf b (List.mem_cons_of_mem a hb)

/-- Nested targets declare their names by the evaluator of the context. -/
theorem declares_bindTarget {n : Node} (hn : n.isTarget = true) (hkind : kind ≠ .var) (v : Value) :
    (bindTarget n v e (.declare kind)).Declares source kind (n.boundNames source) e :=
  fun _ _ hinner w he => hinner.bind n v e kind w hn hkind he

section

variable (hkind : kind ≠ .var)

include hkind

/-- A name that is bound is declared. -/
theorem declares_bindName (x : String) (v : Value) :
    (bindName x v e (.declare kind)).Declares source kind [x] e :=
  fun _ _ _ _ he => Scopes.declares_declare hkind he x v

/-- The one target of a rest has the names that the rest has. -/
theorem declares_bindRest {n : Node} (hn : n.kind = .restPattern) (htarget : n.isTarget = true)
    {x : Action Value} (hx : ∀ S, x.Composed (.sparing S) {}) {f : Unit → Action Unit}
    (hf : ∀ u, (f u).Declares source kind more e) :
    (do
      let m ← firstChild n
      let v ← x
      let u ← bindTarget m v e (.declare kind)
      f u).Declares source kind (n.boundNames source ++ more) e :=
  declares_part_bind fun m hm => declares_bind_of_composed hx fun v => by
    rw [Node.boundNames_rest hn htarget hm]
    exact (declares_bindTarget
      (Node.isTarget_part (.inl hn) htarget (List.mem_of_mem_head? hm)) hkind v).bind hf

/-- The items of an array pattern declare their names. -/
theorem declares_bindItems (items : List Value) {cs : List Node}
    (hitem : ∀ c ∈ cs, c.isItem = true) (htarget : ∀ c ∈ Node.parts cs, c.isTarget = true) (i : Nat) :
    (bindItems items e (.declare kind) cs i).Declares source kind
      ((Node.parts cs).flatMap (Node.boundNames source)) e := by
  induction cs generalizing i with
  | nil => exact declares_pure ()
  | cons c cs ih =>
    have hrest := ih (fun d hd => hitem d (List.mem_cons_of_mem c hd))
      fun d hd => htarget d (Node.mem_parts_cons hd)
    have hmark {s : String} (h : c.isToken s = true) : c.named = false := by
      simpa using (Bool.and_eq_true_iff.mp h).1
    refine declares_ite (fun h => ?_) fun h => declares_ite (fun hcomma => ?_) fun hcomma => ?_
    · have hno : c.named = false ∨ c.kind.isComment = true := by
        simp only [Bool.or_eq_true] at h
        rcases h with (h | h) | h
        · exact .inl (hmark h)
        · exact .inl (hmark h)
        · exact .inr h
      rw [Node.parts_cons_of_neg hno]
      exact hrest i
    · rw [Node.parts_cons_of_neg (.inl (hmark hcomma))]
      exact hrest (i + 1)
    · -- what is left stands for a target
      have hc := hitem c List.mem_cons_self
      simp only [Bool.or_eq_true, not_or, Bool.not_eq_true] at h hcomma
      simp only [Node.isItem, h, hcomma, Bool.or_false] at hc
      have hparts : Node.parts (c :: cs) = c :: Node.parts cs := Node.parts_cons_of_pos hc h.2
      rw [hparts, List.flatMap_cons]
      rw [hparts] at htarget
      have hc := htarget c List.mem_cons_self
      refine declares_ite (fun hkindc => ?_) fun _ => ?_
      · exact declares_bindRest hkind (by simpa using hkindc) hc (fun S => composed_newArray _)
          fun _ => hrest i
      · exact (declares_bindTarget hc hkind _).bind fun _ => hrest i

/-- The fields of an object pattern declare their names. -/
theorem declares_bindFields (v : Value) {cs : List Node} (hslot : ∀ c ∈ cs, c.isSlot = true)
    (htarget : ∀ c ∈ cs, c.isTarget = true) (used : List Text) :
    (bindFields v e (.declare kind) cs used).Declares source kind
      (cs.flatMap (Node.boundNames source)) e := by
  induction cs generalizing used with
  | nil => exact declares_pure ()
  | cons c cs ih =>
    have hrest (used) := ih (fun d hd => hslot d (List.mem_cons_of_mem c hd))
      (fun d hd => htarget d (List.mem_cons_of_mem c hd)) used
    have hc := htarget c List.mem_cons_self
    have hkey (k : Text) : (do
        bindTarget c (← get v k) e (.declare kind)
        bindFields v e (.declare kind) cs (k :: used)).Declares source kind
          (c.boundNames source ++ cs.flatMap (Node.boundNames source)) e :=
      declares_bind_of_composed (fun S => composed_get ..) fun _ =>
        (declares_bindTarget hc hkind _).bind fun _ => hrest _
    rw [List.flatMap_cons]
    unfold bindFields
    split
    · next hpair =>
      refine declares_part_bind fun key _ => declares_bind_of_composed (fun S =>
        composed_propertyKey e Means.unbound_sparing.hereditary (Means.unbound_sparing.expression key))
          fun k => ?_
      refine declares_part_bind fun target htarget => ?_
      rw [Node.boundNames_pair hpair, htarget]
      exact declares_bind_of_composed (fun S => composed_get ..) fun _ =>
        (declares_bindTarget (Node.isTarget_pair hpair hc htarget) hkind _).bind fun _ => hrest _
    · exact declares_bind_of_composed (fun S => composed_textOf c) fun _ => hkey _
    · exact declares_part_bind fun m _ =>
        declares_bind_of_composed (fun S => composed_textOf m) fun _ => hkey _
    · next hr =>
      refine declares_bind_of_composed (fun S => composed_newObject) fun r =>
        declares_bind_of_composed (fun S => composed_enumerableKeys v) fun keys =>
        declares_bind_of_composed (fun S => composed_each (fun k =>
          .bind (composed_get ..) fun _ => composed_define ..) _) fun _ => ?_
      exact declares_bindRest hkind hr hc (x := pure (.object r)) (fun S => composed_pure _)
        fun _ => hrest used
    · have hslot := hslot c List.mem_cons_self
      unfold Node.isSlot at hslot
      grind

theorem declares_bindArray {n : Node} (hn : n.kind = .arrayPattern) (htarget : n.isTarget = true)
    (v : Value) :
    (bindArray n v e (.declare kind)).Declares source kind (n.boundNames source) e := by
  have hitems (items : List Value) : (bindItems items e (.declare kind) n.children 0).Declares
      source kind (n.namedChildren.flatMap (Node.boundNames source)) e :=
    declares_bindItems hkind items (fun _ hc => Node.isItem_of_array hn htarget hc)
      (fun _ hc => Node.isTarget_part (.inr (.inl hn)) htarget hc) 0
  rw [Node.boundNames_parts (.inr (.inl hn))]
  have hiterated : (iterate v >>= fun items => bindItems items e (.declare kind) n.children 0).Declares
      source kind (n.namedChildren.flatMap (Node.boundNames source)) e :=
    declares_bind_of_composed (fun S => composed_iterate v) hitems
  refine declares_ite (fun _ => ?_) fun _ => hiterated
  exact declares_bind_of_composed (fun S => composed_plainText v) fun _ =>
    declares_bind_of_composed (fun S => composed_typeError _) fun _ => hiterated

theorem declares_bindObject {n : Node} (hn : n.kind = .objectPattern) (htarget : n.isTarget = true)
    (v : Value) :
    (bindObject n v e (.declare kind)).Declares source kind (n.boundNames source) e := by
  have hfields : (bindFields v e (.declare kind) n.namedChildren []).Declares source kind
      (n.namedChildren.flatMap (Node.boundNames source)) e :=
    declares_bindFields hkind v (fun _ hc => Node.isSlot_of_object hn htarget hc)
      (fun _ hc => Node.isTarget_part (.inr (.inr hn)) htarget hc) []
  rw [Node.boundNames_parts (.inr (.inr hn))]
  refine declares_ite (fun _ => ?_) fun _ => hfields
  exact declares_bind_of_composed (fun S => composed_plainText v) fun _ =>
    declares_bind_of_composed (fun S => composed_typeError _) fun _ => hfields

/-- Whatever comes of it, a target declares its names. -/
theorem declares_bindPattern {n : Node} (hn : n.isTarget = true) (v : Value) :
    (bindPattern n v e (.declare kind)).Declares source kind (n.boundNames source) e := by
  have hname (h : n.kind = .identifier ∨ n.kind = .shorthandPropertyIdentifierPattern) :
      (do bindName (← textOf n) v e (.declare kind)).Declares source kind (n.boundNames source) e := by
    rw [Node.boundNames_name h]
    exact declares_textOf_bind (declares_bindName hkind _ v)
  have hdefault (h : n.kind = .assignmentPattern ∨ n.kind = .objectAssignmentPattern) : (do
      let left ← part (n.child? .left)
      let v ← if v.isUndefined then
          evalNamed (← part (n.child? .right)) e (← nameHint left)
        else pure v
      bindTarget left v e (.declare kind)).Declares source kind (n.boundNames source) e := by
    rw [Node.boundNames_default h]
    refine declares_part_bind fun left hleft => ?_
    rw [hleft]
    have hrest (v) : (bindTarget left v e (.declare kind)).Declares source kind
        (left.boundNames source) e := declares_bindTarget (Node.isTarget_default h hn hleft) hkind v
    refine declares_ite (fun _ => declares_part_bind fun right _ => ?_) fun _ => hrest v
    refine declares_bind_of_composed (fun S => composed_nameHint left) fun hint => ?_
    exact declares_bind_of_composed (fun S =>
      composed_evalNamed e hint (Means.unbound_sparing.expression right)) hrest
  unfold bindPattern
  split
  · next h => exact hname (.inl h)
  · next h => exact hname (.inr h)
  · next h => exact hdefault (.inl h)
  · next h => exact hdefault (.inr h)
  · next h => exact declares_bindArray hkind h hn v
  · next h => exact declares_bindObject hkind h hn v
  · next h =>
    obtain ⟨kind, _⟩ := n
    cases h
    cases hn
  · exact declares_ite nofun fun _ => declares_invalidTarget n _
  · exact declares_ite nofun fun _ => declares_invalidTarget n _
  · exact declares_invalidTarget n _

omit hkind in
/-- A rest takes all arguments that are left, so nothing behind it is bound. -/
theorem declares_bindParameters {ps : List Node} (htarget : ∀ p ∈ ps, p.isTarget = true)
    (hrest : ∀ p ∈ ps.dropLast, p.kind ≠ .restPattern) (args : List Value) :
    (bindParameters ps args e).Declares source .param (ps.flatMap (Node.boundNames source)) e := by
  have hkind : BindingKind.param ≠ .var := nofun
  induction ps generalizing args with
  | nil => exact declares_pure ()
  | cons p ps ih =>
    have hp := htarget p List.mem_cons_self
    refine declares_ite (fun hkindp => ?_) fun _ => ?_
    · have hkindp : p.kind = .restPattern := by simpa using hkindp
      obtain rfl : ps = [] := by
        cases ps with
        | nil => rfl
        | cons q ps => exact absurd hkindp (hrest p (by simp))
      have hend (u : Unit) : (pure u : Action Unit).Declares source .param [] e := declares_pure u
      have hlast := declares_bindRest hkind hkindp hp (fun S => composed_newArray args) hend
      simpa only [bind_pure, List.append_nil, List.flatMap_singleton] using hlast
    · refine (declares_bindTarget hp hkind _).bind fun _ => ?_
      exact ih (fun q hq => htarget q (List.mem_cons_of_mem p hq))
        (fun q hq => hrest q (by cases ps with
          | nil => cases hq
          | cons r ps => exact List.mem_cons_of_mem p hq)) args.tail

end

/-- A lexical declaration declares the names it lists. -/
theorem declares_execDeclaration {n : Node} (hn : n.IsLexical source) :
    (execDeclaration n e).Declares source (declarationKind (n.declarationWord source))
      (n.declaredNames source) e := by
  have hword : (n.declarationWord source == "var") = false := by simpa using hn.word
  have hkind : declarationKind (n.declarationWord source) ≠ .var := by
    unfold declarationKind
    grind
  refine declares_source_bind ?_
  simp only [hword]
  refine declares_each fun d hd => declares_ite (fun hkindd => ?_) fun hkindd => ?_
  · rw [if_pos hkindd]
    refine declares_part_bind fun target htarget => ?_
    have hbind (v) : (bindTarget target v e
        (.declare (declarationKind (n.declarationWord source)))).Declares source
          (declarationKind (n.declarationWord source)) (target.boundNames source) e :=
      declares_bindTarget (hn.target d hd (by simpa using hkindd) target htarget) hkind v
    rw [htarget]
    cases d.child? .value with
    | none => exact hbind _
    | some value =>
      have hhint : ∀ S, (if target.kind == .identifier then nameHint target else pure [] :
          Action Text).Composed (.sparing S) {} :=
        fun S => composed_ite (composed_nameHint target) (composed_pure _)
      have hvalue (hint : Text) : (do
          bindTarget target (← evalNamed value e hint) e
            (.declare (declarationKind (n.declarationWord source)))).Declares source
              (declarationKind (n.declarationWord source)) (target.boundNames source) e :=
        declares_bind_of_composed (fun S =>
          composed_evalNamed e hint (Means.unbound_sparing.expression value)) hbind
      exact declares_ite (fun _ => declares_bind_of_composed (fun S => composed_nameHint target)
        hvalue) fun _ => hvalue []
  · rw [if_neg hkindd]
    exact declares_pure ()

end Action
end Stepper.Machine

namespace Stepper.Execution

open Syntax Machine Builtin

/-- A level of evaluation declares what targets bind if the one below it does. -/
theorem evaluatorIn_declares {c : Context} (hc : c.inner.Declares c.source) :
    (evaluatorIn c).Declares c.source where
  spares S := evaluatorIn_spares (hc.spares S)
  bind _ v _ _ w hn hkind he := Action.declares_bindPattern hkind hn v c rfl hc w he

theorem evaluator_declares (source : String) (wantsText : Bool) (levels : Nat) :
    (evaluator source wantsText levels).Declares source := by
  induction levels with
  | zero => exact ⟨fun _ => exhausted_spares, fun _ _ _ _ _ _ _ _ => trivial⟩
  | succ levels ih =>
    let c : Context :=
      (contextOver source wantsText levels (evaluator source wantsText levels))
    exact evaluatorIn_declares (c := c) ih

end Stepper.Execution
