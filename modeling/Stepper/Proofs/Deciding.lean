import Mathlib
import Stepper.Proofs.Forming.Grammar
import Stepper.Proofs.Marking

/-!
Complexities add up. The report counts decisions among the named nodes of a program and, function by
function, among all nodes below; as what is not named is a token and no token decides anything, both
count the same. The word `function` has the kind of a function and is none: it is not named. So the
decisions of a program are those outside all functions and those of the outermost functions, and
what takes the place of another subtree changes the complexity of all that is around it by the
difference of the two: whether a node around it is a decision is said by its kind and its tokens.
Nothing but this is asked of a tree.
-/
namespace Stepper.Syntax.Node

variable {n m : Node} {ns : List Node}

theorem preorders_append (ms ns : List Node) :
    preorders (ms ++ ns) = preorders ms ++ preorders ns := by
  induction ms with
  | nil => rfl
  | cons m ms ih => rw [List.cons_append, preorders_cons, preorders_cons, ih, List.append_assoc]

/-- The walk that keeps what is to be visited is the one by recursion. -/
theorem walkAll_eq (ns : List Node) : walkAll ns = preorders ns := by
  fun_induction walkAll ns with
  | case1 => rfl
  | case2 n rest ih =>
    rw [ih, preorders_append, preorders_cons, preorder_eq, List.cons_append]

theorem walk_eq (n : Node) : n.walk = n.preorder := by
  rw [walk, walkAll_eq, preorders_cons, preorders_nil, List.append_nil]

mutual

theorem preorder_sublist (n : Node) (h : m ∈ n.preorder) : m.preorder.Sublist n.preorder := by
  match n with
  | ⟨_, _, _, _, _, _, _, _, _, _, cs⟩ =>
    rcases List.mem_cons.mp h with rfl | h
    · exact .refl _
    · exact (preorders_sublist cs h).cons _
termination_by structural n

theorem preorders_sublist (ns : List Node) (h : m ∈ preorders ns) :
    m.preorder.Sublist (preorders ns) := by
  match ns with
  | [] => cases h
  | n :: ns =>
    rcases List.mem_append.mp h with h | h
    · exact (preorder_sublist n h).trans (List.sublist_append_left _ _)
    · exact (preorders_sublist ns h).trans (List.sublist_append_right _ _)
termination_by structural ns

end

/-- The node at a place, which is given by the indices of the children on the way. -/
def at? (n : Node) : List Nat → Option Node
  | [] => some n
  | i :: path => n.children[i]?.bind (·.at? path)

theorem mem_preorder_of_at? {path : List Nat} (h : n.at? path = some m) : m ∈ n.preorder := by
  induction path generalizing n with
  | nil =>
    cases h
    rw [preorder_eq]
    exact List.mem_cons_self
  | cons i path ih =>
    obtain ⟨c, hc, h⟩ := Option.bind_eq_some_iff.mp h
    rw [preorder_eq]
    exact List.mem_cons_of_mem _ (mem_preorders.mpr ⟨c, List.mem_of_getElem? hc, ih h⟩)

theorem at?_append (n : Node) (around rest : List Nat) :
    n.at? (around ++ rest) = (n.at? around).bind (·.at? rest) := by
  induction around generalizing n with
  | nil => rfl
  | cons i around ih =>
    rw [List.cons_append, at?, at?, Option.bind_assoc]
    exact congrArg (Option.bind _) (funext fun c => ih c)

section

variable (source source' : String)

/-- What a node says of itself without its name: its part, its kind and, of a token, its text. -/
def sameAtTop (n n' : Node) : Bool :=
  n.kind == n'.kind && n.named == n'.named && n.field == n'.field &&
    (n.named || n.text source == n'.text source')

mutual

/-- Whether two trees, each in its source, differ at most in the places of their nodes and in the
texts of what is named. -/
def alike (n n' : Node) : Bool :=
  match n with
  | ⟨a, b, c, d, e, f, g, h, i, j, cs⟩ =>
    sameAtTop source source' ⟨a, b, c, d, e, f, g, h, i, j, cs⟩ n' && alikeAll cs n'.children
termination_by structural n

def alikeAll (ns ns' : List Node) : Bool :=
  match ns with
  | [] => ns'.isEmpty
  | n :: ns => match ns' with
    | [] => false
    | n' :: ns' => alike n n' && alikeAll ns ns'
termination_by structural ns

end

/-- Whether the nodes at an index are in some relation and all others are alike. -/
def alikeBut (r : Node → Node → Bool) (i : Nat) (ns ns' : List Node) : Bool :=
  match i, ns, ns' with
  | 0, n :: ns, n' :: ns' => r n n' && alikeAll source source' ns ns'
  | i + 1, n :: ns, n' :: ns' => alike source source' n n' && alikeBut r i ns ns'
  | _, _, _ => false

/-- Whether one tree is the other with a named subtree at a place replaced by another named one. -/
def replaced (path : List Nat) (n n' : Node) : Bool :=
  match path with
  | [] => n.named && n'.named
  | i :: path =>
    sameAtTop source source' n n' &&
      alikeBut source source' (replaced path) i n.children n'.children

end

end Stepper.Syntax.Node

namespace Stepper.Analysis

open Syntax Node

variable {source source' : String} {n n' m m' : Node} {ns ns' : List Node}

theorem named_of_isDecision (hn : n.Fits) (h : isDecision source n = true) : n.named = true := by
  refine Bool.eq_true_of_not_eq_false fun hnamed => ?_
  obtain ⟨t, ht⟩ := hn.token hnamed
  rw [isDecision, ht] at h
  cases h

/-- Whether a node is a function: the word `function` is none. -/
def isFunction (n : Node) : Bool := n.named && n.kind.isFunction

theorem isDecision_eq_false_of_isFunction (h : isFunction n = true) :
    isDecision source n = false := by
  have hkind := (Bool.and_eq_true_iff.mp h).2
  unfold isDecision
  cases hk : n.kind <;> simp_all [Kind.isFunction, isBranchKind]

/-! ### Counting decisions -/

/-- The decisions at several nodes and below them. -/
def decisionsAll (source : String) (ns : List Node) : Nat :=
  (preorders ns).countP (isDecision source)

theorem decisions_eq (source : String) (n : Node) :
    decisions source n = n.preorder.countP (isDecision source) := by
  rw [decisions, walk_eq]

theorem decisions_node (source : String) (n : Node) :
    decisions source n = decisionsAll source n.children + if isDecision source n then 1 else 0 := by
  rw [decisions_eq, preorder_eq, List.countP_cons]
  rfl

theorem decisionsAll_cons (source : String) (n : Node) (ns : List Node) :
    decisionsAll source (n :: ns) = decisions source n + decisionsAll source ns := by
  rw [decisionsAll, preorders_cons, List.countP_append, decisions_eq]
  rfl

theorem decisions_le (h : m ∈ n.preorder) : decisions source m ≤ decisions source n := by
  rw [decisions_eq, decisions_eq]
  exact (preorder_sublist n h).countP_le

/-- What a token says of its parent: its part and its text. -/
def mark? (source : String) (n : Node) : Option (Option Field × String) :=
  if n.named then none else some (n.field, n.text source)

/-- The operator among the tokens below a node. -/
def operatorAmong (marks : List (Option Field × String)) : String :=
  match marks.find? fun k => k.1 == some .operator with
  | some k => k.2
  | none => (marks.head?.map Prod.snd).getD ""

/-- In a formed tree the operator of a node is said by the tokens below it. -/
theorem operatorText_eq (hn : Formed n) :
    n.operatorText source = operatorAmong (n.children.filterMap (mark? source)) := by
  have hparts (cs : List Node) (hcs : Formed cs) :
      (cs.find? fun c => c.field == some .operator).map (·.text source) =
        ((cs.filterMap (mark? source)).find? fun k => k.1 == some .operator).map Prod.snd := by
    induction cs with
    | nil => rfl
    | cons c cs ih =>
      obtain ⟨hc, hcs⟩ := formed_cons.mp hcs
      have hoperator := (formed_node.mp hc).1.operator
      cases hnamed : c.named <;> cases hfield : c.field == some .operator <;>
        simp_all [mark?]
  have htokens (cs : List Node) : (cs.find? fun c => !c.named).map (·.text source) =
      (cs.filterMap (mark? source)).head?.map Prod.snd := by
    induction cs with
    | nil => rfl
    | cons c cs ih => cases hnamed : c.named <;> simp_all [mark?]
  have hpart := hparts n.children hn.children
  have htoken := htokens n.children
  unfold operatorText operatorAmong child?
  revert hpart htoken
  cases n.children.find? fun c => c.field == some .operator <;>
    cases (n.children.filterMap (mark? source)).find? fun k => k.1 == some .operator <;>
    cases n.children.find? fun c => !c.named <;> grind

theorem kind_of_sameAtTop (h : sameAtTop source source' n n' = true) : n.kind = n'.kind := by
  simp only [sameAtTop, Bool.and_eq_true, beq_iff_eq] at h
  exact h.1.1.1

theorem isFunction_of_sameAtTop (h : sameAtTop source source' n n' = true) :
    isFunction n = isFunction n' := by
  rw [isFunction, isFunction, kind_of_sameAtTop h]
  simp only [sameAtTop, Bool.and_eq_true, beq_iff_eq] at h
  rw [h.1.1.2]

theorem mark?_of_sameAtTop (h : sameAtTop source source' n n' = true) :
    mark? source n = mark? source' n' := by
  simp only [sameAtTop, Bool.and_eq_true, Bool.or_eq_true, beq_iff_eq] at h
  obtain ⟨⟨⟨-, hnamed⟩, hfield⟩, htext⟩ := h
  unfold mark?
  rw [← hnamed, ← hfield]
  rcases htext with h | h
  · rw [if_pos h, if_pos h]
  · rw [h]

/-- Whether a node is a decision is said by its kind and the tokens below it. -/
theorem isDecision_congr (hn : Formed n) (hn' : Formed n')
    (h : sameAtTop source source' n n' = true)
    (hmarks : n.children.filterMap (mark? source) = n'.children.filterMap (mark? source')) :
    isDecision source n = isDecision source' n' := by
  rw [isDecision, isDecision, operatorText_eq hn, operatorText_eq hn', hmarks,
    kind_of_sameAtTop h]

theorem sameAtTop_of_alike (h : alike source source' n n' = true) :
    sameAtTop source source' n n' = true := by
  cases n
  exact (Bool.and_eq_true_iff.mp h).1

theorem marks_of_alikeAll (h : alikeAll source source' ns ns' = true) :
    ns.filterMap (mark? source) = ns'.filterMap (mark? source') := by
  induction ns generalizing ns' with
  | nil =>
    cases List.isEmpty_iff.mp h
    rfl
  | cons n ns ih =>
    cases ns' with
    | nil => cases h
    | cons n' ns' =>
      obtain ⟨hn, hns⟩ := Bool.and_eq_true_iff.mp h
      rw [List.filterMap_cons, List.filterMap_cons,
        mark?_of_sameAtTop (sameAtTop_of_alike hn), ih hns]

mutual

/-- Trees that are alike have as many decisions. -/
theorem decisions_of_alike (n : Node) {n' : Node} (hn : Formed n) (hn' : Formed n')
    (h : alike source source' n n' = true) : decisions source n = decisions source' n' := by
  match n with
  | ⟨a, b, c, d, e, f, g, i, j, k, cs⟩ =>
    obtain ⟨htop, hcs⟩ := Bool.and_eq_true_iff.mp h
    rw [decisions_node, decisions_node, isDecision_congr hn hn' htop (marks_of_alikeAll hcs),
      decisionsAll_of_alikeAll cs hn.children hn'.children hcs]
termination_by structural n

theorem decisionsAll_of_alikeAll (ns : List Node) {ns' : List Node} (hns : Formed ns)
    (hns' : Formed ns') (h : alikeAll source source' ns ns' = true) :
    decisionsAll source ns = decisionsAll source' ns' := by
  match ns with
  | [] =>
    cases List.isEmpty_iff.mp h
    rfl
  | n :: ns =>
    match ns' with
    | [] => cases h
    | n' :: ns' =>
      obtain ⟨hn, hns⟩ := formed_cons.mp hns
      obtain ⟨hn', hns'⟩ := formed_cons.mp hns'
      obtain ⟨halike, h⟩ := Bool.and_eq_true_iff.mp h
      rw [decisionsAll_cons, decisionsAll_cons, decisions_of_alike n hn hn' halike,
        decisionsAll_of_alikeAll ns hns hns' h]
termination_by structural ns

end

/-! ### Replacement -/

theorem marks_of_alikeBut {r : Node → Node → Bool} {i : Nat}
    (hr : ∀ n n', r n n' = true → mark? source n = mark? source' n')
    (h : alikeBut source source' r i ns ns' = true) :
    ns.filterMap (mark? source) = ns'.filterMap (mark? source') := by
  fun_induction alikeBut source source' r i ns ns' with
  | case1 n ns n' ns' =>
    obtain ⟨hn, hns⟩ := Bool.and_eq_true_iff.mp h
    rw [List.filterMap_cons, List.filterMap_cons, hr n n' hn, marks_of_alikeAll hns]
  | case2 i n ns n' ns' ih =>
    obtain ⟨hn, hns⟩ := Bool.and_eq_true_iff.mp h
    rw [List.filterMap_cons, List.filterMap_cons,
      mark?_of_sameAtTop (sameAtTop_of_alike hn), ih hns]
  | case3 => cases h

/-- What is replaced says nothing of its parent, neither before nor after. -/
theorem mark?_of_replaced {path : List Nat} (h : replaced source source' path n n' = true) :
    mark? source n = mark? source' n' := by
  cases path with
  | nil =>
    obtain ⟨hn, hn'⟩ := Bool.and_eq_true_iff.mp h
    rw [mark?, mark?, if_pos hn, if_pos hn']
  | cons i path => exact mark?_of_sameAtTop (Bool.and_eq_true_iff.mp h).1

theorem decisionsAll_of_alikeBut {r : Node → Node → Bool} {i k l : Nat}
    (hr : ∀ n n', Formed n → Formed n' → ns[i]? = some n → ns'[i]? = some n' → r n n' = true →
      decisions source' n' + k = decisions source n + l)
    (hns : Formed ns) (hns' : Formed ns') (h : alikeBut source source' r i ns ns' = true) :
    decisionsAll source' ns' + k = decisionsAll source ns + l := by
  fun_induction alikeBut source source' r i ns ns' with
  | case1 n ns n' ns' =>
    obtain ⟨hn, hns⟩ := formed_cons.mp hns
    obtain ⟨hn', hns'⟩ := formed_cons.mp hns'
    obtain ⟨hreplaced, halike⟩ := Bool.and_eq_true_iff.mp h
    have hone := hr n n' hn hn' rfl rfl hreplaced
    have hrest := decisionsAll_of_alikeAll ns hns hns' halike
    rw [decisionsAll_cons, decisionsAll_cons]
    omega
  | case2 i n ns n' ns' ih =>
    obtain ⟨hn, hns⟩ := formed_cons.mp hns
    obtain ⟨hn', hns'⟩ := formed_cons.mp hns'
    obtain ⟨halike, h⟩ := Bool.and_eq_true_iff.mp h
    have hone := decisions_of_alike n hn hn' halike
    have hrest := ih hr hns hns' h
    rw [decisionsAll_cons, decisionsAll_cons]
    omega
  | case3 => cases h

/-- A replacement changes the number of decisions by the difference of what was and what is there.
By induction on the way to the place. -/
theorem decisions_of_replaced {path : List Nat} (hn : Formed n) (hn' : Formed n')
    (hm : n.at? path = some m) (hm' : n'.at? path = some m')
    (h : replaced source source' path n n' = true) :
    decisions source' n' + decisions source m = decisions source n + decisions source' m' := by
  induction path generalizing n n' with
  | nil =>
    cases hm
    cases hm'
    exact Nat.add_comm _ _
  | cons i path ih =>
    obtain ⟨htop, hcs⟩ := Bool.and_eq_true_iff.mp h
    have hchildren := decisionsAll_of_alikeBut (k := decisions source m)
      (l := decisions source' m') (fun c c' hc hc' hi hi' hr => ?_) hn.children hn'.children hcs
    · have hself := isDecision_congr hn hn' htop
        (marks_of_alikeBut (fun _ _ => mark?_of_replaced) hcs)
      rw [decisions_node source n, decisions_node source' n', hself]
      omega
    · rw [at?, hi] at hm
      rw [at?, hi'] at hm'
      exact ih hc hc' hm hm' hr

theorem exists_of_alikeBut {r : Node → Node → Bool} {i : Nat} (hn : ns[i]? = some n)
    (h : alikeBut source source' r i ns ns' = true) : ∃ n', ns'[i]? = some n' ∧ r n n' = true := by
  fun_induction alikeBut source source' r i ns ns' with
  | case1 m ns m' ns' =>
    cases hn
    exact ⟨m', rfl, (Bool.and_eq_true_iff.mp h).1⟩
  | case2 i m ns m' ns' ih => exact ih hn (Bool.and_eq_true_iff.mp h).2
  | case3 => cases h

/-- Every node around a replacement is still there, with the replacement below it. -/
theorem replaced_below {around rest : List Nat} (hm : n.at? around = some m)
    (h : replaced source source' (around ++ rest) n n' = true) :
    ∃ m', n'.at? around = some m' ∧ replaced source source' rest m m' = true := by
  induction around generalizing n n' with
  | nil =>
    cases hm
    exact ⟨n', rfl, h⟩
  | cons i around ih =>
    obtain ⟨c, hc, hm⟩ := Option.bind_eq_some_iff.mp hm
    obtain ⟨-, hcs⟩ := Bool.and_eq_true_iff.mp h
    obtain ⟨c', hc', hr⟩ := exists_of_alikeBut hc hcs
    obtain ⟨m', hm', hrest⟩ := ih hm hr
    exact ⟨m', by rw [at?, hc']; exact hm', hrest⟩

/-! ### Functions -/

/-- Whether a node stands in a function, or is one. -/
def inFunction (s : Sited) : Bool := (s.node :: s.ancestors).any isFunction

/-- Whether a node is a function that no other one is around. -/
def isOutermost (s : Sited) : Bool := isFunction s.node && !s.ancestors.any isFunction

/-- The functions of a program that no other function is around. -/
def outermostFunctions (p : Program) : List Node :=
  ((sited [] p.root).filter isOutermost).map Sited.node

/-- The number of decisions outside all functions. -/
def outerDecisions (p : Program) : Nat :=
  (sited [] p.root).countP fun s => isDecision p.source s.node && !inFunction s

mutual

/-- Inside a function nothing is outside of functions. -/
theorem inFunction_of_ancestor (n : Node) (ancestors : List Node)
    (h : ancestors.any isFunction = true) :
    ∀ s ∈ sited ancestors n, inFunction s = true ∧ isOutermost s = false := by
  match n with
  | ⟨_, _, _, _, _, _, _, _, _, _, cs⟩ =>
    refine List.forall_mem_cons.mpr ⟨?_, inFunction_of_ancestors cs _ ?_⟩
    · simp only [inFunction, isOutermost, List.any_cons, h]
      simp
    · rw [List.any_cons, h, Bool.or_true]
termination_by structural n

theorem inFunction_of_ancestors (ns : List Node) (ancestors : List Node)
    (h : ancestors.any isFunction = true) :
    ∀ s ∈ sitedAll ancestors ns, inFunction s = true ∧ isOutermost s = false := by
  match ns with
  | [] => nofun
  | n :: ns =>
    exact List.forall_mem_append.mpr
      ⟨inFunction_of_ancestor n _ h, inFunction_of_ancestors ns _ h⟩
termination_by structural ns

end

mutual

/-- The decisions of a tree are those outside functions and those of its outermost functions. -/
theorem decisions_split (source : String) (n : Node) (ancestors : List Node)
    (h : ancestors.any isFunction = false) :
    decisions source n =
      (sited ancestors n).countP (fun s => isDecision source s.node && !inFunction s) +
        (((sited ancestors n).filter isOutermost).map fun s => decisions source s.node).sum := by
  match n with
  | ⟨a, b, c, d, e, f, g, i, j, k, cs⟩ =>
    set self : Node := ⟨a, b, c, d, e, f, g, i, j, k, cs⟩ with hself
    rw [show sited ancestors self = ⟨self, ancestors⟩ :: sitedAll (self :: ancestors) cs from rfl]
    cases hfunction : isFunction self with
    | true =>
      have hinside := inFunction_of_ancestors cs (self :: ancestors)
        (by rw [List.any_cons, hfunction, Bool.true_or])
      have hcount : (sitedAll (self :: ancestors) cs).countP
          (fun s => isDecision source s.node && !inFunction s) = 0 :=
        List.countP_eq_zero.mpr fun s hs => by simp [(hinside s hs).1]
      have hnone : (sitedAll (self :: ancestors) cs).filter isOutermost = [] :=
        List.filter_eq_nil_iff.mpr fun s hs => by simp [(hinside s hs).2]
      have hhead : isOutermost ⟨self, ancestors⟩ = true := by simp [isOutermost, hfunction, h]
      rw [List.countP_cons, hcount, List.filter_cons_of_pos hhead, hnone,
        isDecision_eq_false_of_isFunction hfunction]
      simp
    | false =>
      have houtside : (self :: ancestors).any isFunction = false := by
        rw [List.any_cons, hfunction, h, Bool.false_or]
      have hhead : ¬ isOutermost ⟨self, ancestors⟩ = true := by simp [isOutermost, hfunction]
      have hcounted : (isDecision source self && !inFunction ⟨self, ancestors⟩) =
          isDecision source self := by
        rw [inFunction, houtside, Bool.not_false, Bool.and_true]
      rw [decisions_node, List.countP_cons, List.filter_cons_of_neg hhead, hcounted,
        decisionsAll_split source cs _ houtside]
      omega
termination_by structural n

theorem decisionsAll_split (source : String) (ns : List Node) (ancestors : List Node)
    (h : ancestors.any isFunction = false) :
    decisionsAll source ns =
      (sitedAll ancestors ns).countP (fun s => isDecision source s.node && !inFunction s) +
        (((sitedAll ancestors ns).filter isOutermost).map
          fun s => decisions source s.node).sum := by
  match ns with
  | [] => rfl
  | n :: ns =>
    rw [decisionsAll_cons, sitedAll, List.countP_append, List.filter_append, List.map_append,
      List.sum_append, decisions_split source n _ h, decisionsAll_split source ns _ h]
    omega
termination_by structural ns

end

/-! ### Reports -/

section

variable {p p' : Program}

/-- The named nodes in preorder, where the report finds everything. -/
theorem named_sited (p : Program) :
    ((sited [] p.root).filter fun s => s.node.named).map Sited.node =
      p.root.preorder.filter (·.named) := by
  rw [← Instrument.sited_nodes [] p.root, List.filter_map]
  rfl

theorem report_complexity (hp : Formed p.root) :
    (report p).complexity = complexity p.source p.root := by
  change 1 + (((sited [] p.root).filter fun s => s.node.named).map Sited.node).countP _ = _
  rw [named_sited, List.countP_filter, complexity, decisions_eq]
  refine congrArg (1 + ·) (List.countP_congr fun n hn => ?_)
  rw [Bool.and_eq_true]
  exact and_iff_left_of_imp (named_of_isDecision (hp.fits hn))

theorem report_functions (p : Program) : (report p).functions =
    (p.root.preorder.filter isFunction).map (functionInfo p.source) := by
  change ((((sited [] p.root).filter fun s => s.node.named).map Sited.node).filter _).map _ = _
  rw [named_sited, List.filter_filter]
  exact congrArg (List.map _) (List.filter_congr fun n _ => Bool.and_comm ..)

/-- One program is another with a named subtree replaced by a named one. Outside of the place both
have the same kinds, parts and tokens. -/
structure Replacement (p p' : Program) (path : List Nat) (m m' : Node) : Prop where
  old : p.root.at? path = some m
  new : p'.root.at? path = some m'
  around : replaced p.source p'.source path p.root p'.root = true

/-- What is replaced changes the decisions of every node around it by the same difference. -/
theorem Replacement.decisions (around : List Nat) {rest : List Nat} (hp : Formed p.root)
    (hp' : Formed p'.root) (h : Replacement p p' (around ++ rest) m m')
    (hn : p.root.at? around = some n) :
    ∃ n', p'.root.at? around = some n' ∧ (rest ≠ [] → isFunction n = isFunction n') ∧
      decisions p'.source n' + decisions p.source m =
        decisions p.source n + decisions p'.source m' := by
  obtain ⟨n', hn', hbelow⟩ := replaced_below hn h.around
  have hm := h.old
  have hm' := h.new
  rw [at?_append, hn] at hm
  rw [at?_append, hn'] at hm'
  refine ⟨n', hn', fun hrest => ?_, decisions_of_replaced (hp.below (mem_preorder_of_at? hn))
    (hp'.below (mem_preorder_of_at? hn')) hm hm' hbelow⟩
  cases rest with
  | nil => exact absurd rfl hrest
  | cons i rest => exact isFunction_of_sameAtTop (Bool.and_eq_true_iff.mp hbelow).1

/-- Complexities add up, in any tree in which only tokens have no name and operators have none. The
complexity of a program is that of its root. Its functions are listed in the order of the source,
each with one more than the decisions in it. What the program has more than one are the decisions
outside of functions and what its outermost functions have more than one. No function has more than
one that it stands in. And a replacement changes the complexity of the program and of every function
around it by the difference of the decisions. -/
theorem complexities_add_up {p : Program} (hp : ∀ n ∈ p.root.preorder, n.Fits) :
    (report p).complexity = complexity p.source p.root ∧
    (report p).functions = (p.root.preorder.filter isFunction).map (functionInfo p.source) ∧
    (∀ n, (functionInfo p.source n).complexity = 1 + n.preorder.countP (isDecision p.source)) ∧
    (report p).complexity - 1 = outerDecisions p +
      ((outermostFunctions p).map fun f => (functionInfo p.source f).complexity - 1).sum ∧
    (∀ f g : Node, isFunction f = true → isFunction g = true → g ∈ f.preorder →
      (functionInfo p.source g).complexity ≤ (functionInfo p.source f).complexity) ∧
    ∀ (p' : Program) (path : List Nat) (m m' : Node), (∀ n ∈ p'.root.preorder, n.Fits) →
      Replacement p p' path m m' →
      ((report p').complexity : Int) - (report p).complexity =
        decisions p'.source m' - decisions p.source m ∧
      ∀ around rest f, path = around ++ rest → rest ≠ [] → p.root.at? around = some f →
        isFunction f = true → ∃ f', p'.root.at? around = some f' ∧ isFunction f' = true ∧
          ((functionInfo p'.source f').complexity : Int) - (functionInfo p.source f).complexity =
            decisions p'.source m' - decisions p.source m := by
  have hformed : Formed p.root := List.forall_mem_singleton.mpr hp
  have hsplit := decisions_split p.source p.root [] rfl
  refine ⟨report_complexity hformed, report_functions p, fun n => ?_, ?_, ?_, ?_⟩
  · exact congrArg (1 + ·) (decisions_eq p.source n)
  · rw [report_complexity hformed, complexity, Nat.add_sub_cancel_left, hsplit, outerDecisions,
      outermostFunctions, List.map_map]
    refine congrArg (_ + List.sum ·) (List.map_congr_left fun s _ => ?_)
    exact (Nat.add_sub_cancel_left ..).symm
  · intro f g _ _ hg
    exact Nat.add_le_add_left (decisions_le hg) 1
  · intro p' path m m' hp' h
    have hformed' : Formed p'.root := List.forall_mem_singleton.mpr hp'
    refine ⟨?_, fun around rest f hpath hrest hf hfunction => ?_⟩
    · obtain ⟨n', hn', -, hdecisions⟩ := h.decisions [] hformed hformed' rfl
      cases hn'
      rw [report_complexity hformed, report_complexity hformed', complexity, complexity]
      omega
    · subst hpath
      obtain ⟨f', hf', hsame, hdecisions⟩ := h.decisions around hformed hformed' hf
      refine ⟨f', hf', hsame hrest ▸ hfunction, ?_⟩
      change ((1 + decisions p'.source f' : Nat) : Int) - (1 + decisions p.source f : Nat) = _
      omega

/-! A function inside another one that is replaced by a choice: one decision becomes two. -/

def givesFunction : String := "function f(a) \x7b if (a) return () => a && 1; \x7d"
def givesChoice : String := "function f(a) \x7b if (a) return a ? [] : a || 2; \x7d"

/-- Where the two differ. -/
def givenPlace : List Nat := [0, 3, 1, 2, 1]

def readsReplaced (source source' : String) (path : List Nat) : Bool :=
  match parse source, parse source' with
  | .ok p, .ok p' => match p.root.at? path, p'.root.at? path, p.root.at? [0] with
    | some m, some m', some f =>
      replaced p.source p'.source path p.root p'.root && isFunction f &&
        m.preorder.countP (isDecision p.source) == 1 &&
        m'.preorder.countP (isDecision p'.source) == 2 && (report p).complexity == 3
    | _, _, _ => false
  | _, _ => false

theorem readsReplaced_spec {source source' : String} {path : List Nat}
    (h : readsReplaced source source' path = true) : ∃ p p' m m' f,
      parse source = .ok p ∧ parse source' = .ok p' ∧ Replacement p p' path m m' ∧
      p.root.at? [0] = some f ∧ isFunction f = true ∧
      m.preorder.countP (isDecision p.source) = 1 ∧
      m'.preorder.countP (isDecision p'.source) = 2 ∧ (report p).complexity = 3 := by
  unfold readsReplaced at h
  split at h
  · next p p' hp hp' =>
    split at h
    · next m m' f hm hm' hf =>
      simp only [Bool.and_eq_true, beq_iff_eq] at h
      obtain ⟨⟨⟨⟨hreplaced, hfunction⟩, hold⟩, hnew⟩, hthree⟩ := h
      exact ⟨p, p', m, m', f, hp, hp', ⟨hm, hm', hreplaced⟩, hf, hfunction, hold, hnew, hthree⟩
    · cases h
  · cases h

theorem choice_replaces_function : ∃ p p' m m' f f',
    parse givesFunction = .ok p ∧ parse givesChoice = .ok p' ∧
      (∀ n ∈ p.root.preorder, n.Fits) ∧ (∀ n ∈ p'.root.preorder, n.Fits) ∧
      Replacement p p' givenPlace m m' ∧ p.root.at? [0] = some f ∧ p'.root.at? [0] = some f' ∧
      (report p).complexity = 3 ∧ ((report p').complexity : Int) - (report p).complexity = 1 ∧
      ((functionInfo p'.source f').complexity : Int) -
        (functionInfo p.source f).complexity = 1 := by
  have hreads : readsReplaced givesFunction givesChoice givenPlace = true := by decide +kernel
  obtain ⟨p, p', m, m', f, hp, hp', hreplaced, hf, hfunction, hold, hnew, hthree⟩ :=
    readsReplaced_spec hreads
  have hfits := List.forall_mem_singleton.mp (parse_formed hp)
  have hfits' := List.forall_mem_singleton.mp (parse_formed hp')
  obtain ⟨-, -, -, -, -, hreplacement⟩ := complexities_add_up hfits
  obtain ⟨hprogram, haround⟩ := hreplacement _ _ _ _ hfits' hreplaced
  obtain ⟨f', hf', -, hcomplexity⟩ := haround [0] [3, 1, 2, 1] f rfl nofun hf hfunction
  rw [decisions_eq, decisions_eq, hold, hnew] at hprogram hcomplexity
  exact ⟨p, p', m, m', f, f', hp, hp', hfits, hfits', hreplaced, hf, hf', hthree, hprogram,
    hcomplexity⟩

end

end Stepper.Analysis
