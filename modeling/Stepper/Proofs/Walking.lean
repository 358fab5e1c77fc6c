import Stepper.Proofs.Deciding
import Stepper.Proofs.Hoisting
import Stepper.Proofs.Keys
import Stepper.Proofs.Rounds

/-!
The walks over a tree keep what is still to be visited in a list, and a scope is walked without what
is below the functions and classes in it. Both are one recursion: a node comes before what is below
it, one child after the other, and below some nodes nothing is listed. Said without a recursion: the
nodes are listed by the ways that lead to them, each way once, in the order of a dictionary. So the
names that a function binds ahead are those of the `var` declarations in its scope, as they come in
the source.
-/
namespace Stepper.Syntax.Node

variable {stops : Node → Bool} {n m c : Node} {ns : List Node} {way : List Nat}

mutual
/-- Preorder, with nothing listed below the nodes of some kind. -/
def cutOrder (stops : Node → Bool) (n : Node) : List Node :=
  match n with
  | ⟨a, b, c, d, e, f, g, h, i, j, cs⟩ =>
    ⟨a, b, c, d, e, f, g, h, i, j, cs⟩ ::
      if stops ⟨a, b, c, d, e, f, g, h, i, j, cs⟩ then [] else cutOrders stops cs
termination_by structural n

/-- The orders of several trees, one after the other. -/
def cutOrders (stops : Node → Bool) (ns : List Node) : List Node :=
  match ns with
  | [] => []
  | n :: ns => cutOrder stops n ++ cutOrders stops ns
termination_by structural ns
end

/-- A node comes first, and what is below it unless it turns the walk back. -/
theorem cutOrder_eq (stops : Node → Bool) (n : Node) :
    cutOrder stops n = n :: if stops n then [] else cutOrders stops n.children := by
  cases n; rfl

@[simp] theorem cutOrders_nil : cutOrders stops [] = [] := rfl

@[simp] theorem cutOrders_cons :
    cutOrders stops (n :: ns) = cutOrder stops n ++ cutOrders stops ns := rfl

/-- Trees in a row are listed in a row. -/
theorem cutOrders_append (ms ns : List Node) :
    cutOrders stops (ms ++ ns) = cutOrders stops ms ++ cutOrders stops ns := by
  induction ms with
  | nil => rfl
  | cons m ms ih => rw [List.cons_append, cutOrders_cons, ih, cutOrders_cons, List.append_assoc]

mutual

/-- Where no node stops it, the order is the whole preorder. -/
theorem cutOrder_never (n : Node) : cutOrder (fun _ => false) n = n.preorder := by
  match n with
  | ⟨_, _, _, _, _, _, _, _, _, _, cs⟩ => exact congrArg (_ :: ·) (cutOrders_never cs)
termination_by structural n

/-- Where nothing turns the walk back it lists all. -/
theorem cutOrders_never (ns : List Node) : cutOrders (fun _ => false) ns = preorders ns := by
  match ns with
  | [] => rfl
  | n :: ns => rw [cutOrders_cons, cutOrder_never n, cutOrders_never ns, preorders_cons]
termination_by structural ns

end

/-! What a walk still has to visit is what the pending trees list, one after the other. -/

theorem walkScopeAll_eq (pending : List Node) :
    walkScopeAll pending = cutOrders closesScope pending := by
  induction pending using walkScopeAll.induct with
  | case1 => rw [walkScopeAll, cutOrders_nil]
  | case2 n rest hcloses ih =>
    rw [walkScopeAll, if_pos hcloses, ih, cutOrders_cons, cutOrder_eq, if_pos hcloses]
    rfl
  | case3 n rest hopen ih =>
    rw [walkScopeAll, if_neg hopen, ih, cutOrders_append, cutOrders_cons, cutOrder_eq,
      if_neg hopen, List.cons_append]

/-! A way goes down from a node, from child to child; it is written by the places of these among the
children of the node before. -/

/-- A way that leads to a node and goes on below no node that stops it. -/
inductive Leads (stops : Node → Bool) : Node → List Nat → Node → Prop where
  | here (n : Node) : Leads stops n [] n
  | down {n c m : Node} {i : Nat} {way : List Nat} (hopen : stops n = false)
      (hc : n.children[i]? = some c) (h : Leads stops c way m) : Leads stops n (i :: way) m

/-- Ways from one of several trees, which is named first. -/
def LeadsFrom (stops : Node → Bool) (ns : List Node) (way : List Nat) (m : Node) : Prop :=
  ∃ i rest c, way = i :: rest ∧ ns[i]? = some c ∧ Leads stops c rest m

/-- A way ends at once, or goes on below a node that lets it. -/
theorem leads_iff : Leads stops n way m ↔
    way = [] ∧ m = n ∨ stops n = false ∧ LeadsFrom stops n.children way m := by
  constructor
  · rintro (_ | ⟨hopen, hc, h⟩)
    · exact .inl ⟨rfl, rfl⟩
    · exact .inr ⟨hopen, _, _, _, rfl, hc, h⟩
  · rintro (⟨rfl, rfl⟩ | ⟨hopen, i, rest, c, rfl, hc, h⟩)
    · exact .here _
    · exact .down hopen hc h

/-- A list of nodes has each way that leads to a node once, in the order of a dictionary: a node
comes before what is below it, and what is below a child before the children after that one. -/
def InOrder (leads : List Nat → Node → Prop) (ns : List Node) : Prop :=
  ∃ ways : List (List Nat), List.Forall₂ leads ways ns ∧ ways.Pairwise (· < ·) ∧
    ∀ way, way ∈ ways ↔ ∃ m, leads way m

/-- The way that begins with the next tree instead. -/
def nextTree : List Nat → List Nat
  | [] => []
  | i :: way => (i + 1) :: way

/-- Ways through later trees keep their order. -/
theorem nextTree_lt : ∀ {v w : List Nat}, v < w → nextTree v < nextTree w
  | [], [], h => absurd h (List.lt_irrefl [])
  | [], _ :: _, _ => List.nil_lt_cons ..
  | _ :: _, [], h => absurd h (List.not_lt_nil _)
  | i :: v, j :: w, h => by
    obtain hlt | ⟨rfl, hlt⟩ := List.cons_lt_cons_iff.mp h
    · exact List.cons_lt_cons_iff.mpr (.inl (Nat.succ_lt_succ hlt))
    · exact List.cons_lt_cons_iff.mpr (.inr ⟨rfl, hlt⟩)

/-- A way through trees goes through the first or through those behind it. -/
theorem leadsFrom_cons : LeadsFrom stops (n :: ns) way m ↔
    (∃ rest, way = 0 :: rest ∧ Leads stops n rest m) ∨
      ∃ rest, way = nextTree rest ∧ LeadsFrom stops ns rest m := by
  constructor
  · rintro ⟨i, rest, c, rfl, hc, h⟩
    cases i with
    | zero =>
      obtain rfl : n = c := Option.some.inj hc
      exact .inl ⟨rest, rfl, h⟩
    | succ i => exact .inr ⟨i :: rest, rfl, i, rest, c, rfl, hc, h⟩
  · rintro (⟨rest, rfl, h⟩ | ⟨_, rfl, i, rest, c, rfl, hc, h⟩)
    · exact ⟨0, rest, n, rfl, rfl, h⟩
    · exact ⟨i + 1, rest, c, rfl, hc, h⟩

theorem inOrder_nil : InOrder (LeadsFrom stops []) [] := by
  refine ⟨[], .nil, .nil, fun way => ⟨nofun, ?_⟩⟩
  rintro ⟨m, i, rest, c, -, hc, -⟩
  cases hc

/-- Lists in order of their ways may be put end to end. -/
theorem InOrder.cons {xs ys : List Node} (hxs : InOrder (Leads stops n) xs)
    (hys : InOrder (LeadsFrom stops ns) ys) : InOrder (LeadsFrom stops (n :: ns)) (xs ++ ys) := by
  obtain ⟨vs, hvs, hvsorder, hvsall⟩ := hxs
  obtain ⟨ws, hws, hwsorder, hwsall⟩ := hys
  refine ⟨vs.map (0 :: ·) ++ ws.map nextTree, ?_, ?_, fun way => ?_⟩
  · refine List.rel_append ?_ ?_
    · exact List.forall₂_map_left_iff.mpr
        (hvs.imp fun way m h => leadsFrom_cons.mpr (.inl ⟨way, rfl, h⟩))
    · exact List.forall₂_map_left_iff.mpr
        (hws.imp fun way m h => leadsFrom_cons.mpr (.inr ⟨way, rfl, h⟩))
  · refine List.pairwise_append.mpr ⟨?_, ?_, ?_⟩
    · exact List.pairwise_map.mpr (hvsorder.imp fun h => List.cons_lt_cons_iff.mpr (.inr ⟨rfl, h⟩))
    · exact List.pairwise_map.mpr (hwsorder.imp nextTree_lt)
    · intro _ hv _ hw
      obtain ⟨v, -, rfl⟩ := List.mem_map.mp hv
      obtain ⟨w, hmem, rfl⟩ := List.mem_map.mp hw
      obtain ⟨m, i, rest, c, rfl, -⟩ := (hwsall w).mp hmem
      exact List.cons_lt_cons_iff.mpr (.inl (Nat.succ_pos i))
  · simp only [List.mem_append, List.mem_map, leadsFrom_cons, exists_or, hvsall, hwsall]
    grind

/-- A node is before all that is below it. -/
theorem inOrder_node {xs : List Node} (hxs : InOrder (LeadsFrom stops n.children) xs) :
    InOrder (Leads stops n) (n :: if stops n then [] else xs) := by
  by_cases hstops : stops n = true
  · refine ⟨[[]], ?_, List.pairwise_singleton _ _, fun way => ?_⟩
    · rw [if_pos hstops]
      exact .cons (.here n) .nil
    · simp [leads_iff, hstops]
  · rw [if_neg hstops]
    have hopen : stops n = false := eq_false_of_ne_true hstops
    obtain ⟨ways, hways, horder, hall⟩ := hxs
    refine ⟨[] :: ways, ?_, ?_, fun way => ?_⟩
    · exact .cons (.here n) (hways.imp fun way m h => leads_iff.mpr (.inr ⟨hopen, h⟩))
    · refine List.pairwise_cons.mpr ⟨fun way hway => ?_, horder⟩
      obtain ⟨m, i, rest, c, rfl, -⟩ := (hall way).mp hway
      exact List.nil_lt_cons ..
    · simp [leads_iff, hopen, hall, exists_or]

mutual

/-- What is listed is in the order of the ways, each once, by induction on the tree. -/
theorem inOrder_cutOrder (stops : Node → Bool) (n : Node) :
    InOrder (Leads stops n) (cutOrder stops n) := by
  match n with
  | ⟨_, _, _, _, _, _, _, _, _, _, cs⟩ =>
    exact cutOrder_eq stops _ ▸ inOrder_node (inOrder_cutOrders stops cs)
termination_by structural n

theorem inOrder_cutOrders (stops : Node → Bool) (ns : List Node) :
    InOrder (LeadsFrom stops ns) (cutOrders stops ns) := by
  match ns with
  | [] => exact inOrder_nil
  | n :: ns => exact (inOrder_cutOrder stops n).cons (inOrder_cutOrders stops ns)
termination_by structural ns

end

end Stepper.Syntax.Node

namespace Stepper.Machine

open Syntax

namespace Scopes

/-- Declares names as variables without a value, one after the other. -/
def declareAll (s : Scopes) (e : ScopeRef) (names : List String) : Scopes :=
  names.foldl (fun s name => s.declare e name .var (some .undefined)) s

theorem size_declare (s : Scopes) (e : ScopeRef) (name : String) (kind : BindingKind)
    (a : Option Value) : (s.declare e name kind a).all.size = s.all.size := by
  unfold declare
  split
  · rfl
  · exact Array.size_modify

/-- A name that is declared twice is there once. -/
theorem names_declare {s : Scopes} {e : ScopeRef} (he : e.index < s.all.size) (name : String)
    (a : Option Value) : (s.declare e name .var a).names e =
      if name ∈ s.names e then s.names e else s.names e ++ [name] := by
  have hbound : ((s.get e).bindings.get? name).isSome = true ↔ name ∈ s.names e :=
    OrderedMap.has_iff
  unfold declare
  by_cases hmem : name ∈ s.names e
  · rw [if_pos ⟨rfl, hbound.mpr hmem⟩, if_pos hmem]
  · rw [if_neg fun hvar => hmem (hbound.mp hvar.2), if_neg hmem, names, setBinding,
      get_modify_self _ _ he]
    exact (OrderedMap.keys_set ..).trans (if_neg hmem)

/-- The new names come behind the old ones, each where it is first declared. -/
theorem names_declareAll {s : Scopes} {e : ScopeRef} (he : e.index < s.all.size)
    (names : List String) : (s.declareAll e names).names e =
      s.names e ++ (names.filter (· ∉ s.names e)).eraseDups := by
  induction names generalizing s with
  | nil => exact (List.append_nil _).symm
  | cons name names ih =>
    change ((s.declare e name .var (some .undefined)).declareAll e names).names e = _
    rw [ih (by rwa [size_declare]), names_declare he]
    by_cases hmem : name ∈ s.names e
    · rw [if_pos hmem, List.filter_cons_of_neg (by simpa using hmem)]
    · rw [if_neg hmem, List.filter_cons_of_pos (by simpa using hmem), List.eraseDups_cons,
        List.filter_filter, List.append_assoc]
      have hrest : names.filter (· ∉ s.names e ++ [name]) =
          names.filter fun other => !(other == name) && decide (other ∉ s.names e) :=
        List.filter_congr fun other _ => by simp [Bool.and_comm, beq_eq_decide]
      rw [hrest]
      rfl

end Scopes

namespace Action

/-- Names are declared one after the other. -/
theorem each_declare (e : ScopeRef) (names : List String) (c : Context) (w : World) :
    each (fun name => declare e name .var (some .undefined)) names c w =
      .done () { w with scopes := w.scopes.declareAll e names } := by
  induction names generalizing w with
  | nil => rfl
  | cons name names ih => exact ih _

/-- The names that the scope of a body declares by `var`, in the order of its nodes. -/
def scopeNames (source : String) (body : Node) : List String :=
  (Node.cutOrders Node.closesScope body.children).flatMap (variableNames source)

theorem varNames_eq (source : String) (body : Node) :
    varNames source body = scopeNames source body :=
  congrArg (List.flatMap (variableNames source)) (Node.walkScopeAll_eq body.children)

/-- The names declared by `var` come before the functions. -/
theorem hoistFunction_eq (body : Node) (e : ScopeRef) (c : Context) (w : World) :
    hoistFunction body e c w = hoistBlock body.namedChildren e c
      { w with scopes := w.scopes.declareAll e (scopeNames c.source body) } := by
  change ((each _ (varNames c.source body) c w).bind fun _ v =>
    hoistBlock body.namedChildren e c v) = _
  rw [each_declare, varNames_eq]
  rfl

/-- A walk lists a tree in preorder, each way down once; the walk over a scope does so with what is
below the node, and lists the functions and classes there, but nothing below these. The names that a
function binds ahead come in that order: behind the names that its scope has already, each where it
is first declared. -/
theorem walks_are_preorders (n : Node) :
    n.walk = n.preorder ∧
    Node.InOrder (Node.Leads (fun _ => false) n) n.walk ∧
    n.walkScope = Node.cutOrders Node.closesScope n.children ∧
    Node.InOrder (Node.LeadsFrom Node.closesScope n.children) n.walkScope ∧
    ∀ (c : Context) (e : ScopeRef) (w : World), e.index < w.scopes.all.size →
      ∃ s : Scopes, hoistFunction n e c w = hoistBlock n.namedChildren e c { w with scopes := s } ∧
        s = w.scopes.declareAll e (scopeNames c.source n) ∧
        s.names e = w.scopes.names e ++
          ((scopeNames c.source n).filter (· ∉ w.scopes.names e)).eraseDups := by
  have hwalk : n.walk = Node.cutOrder (fun _ => false) n :=
    n.walk_eq.trans (Node.cutOrder_never n).symm
  have hscope : n.walkScope = Node.cutOrders Node.closesScope n.children :=
    Node.walkScopeAll_eq n.children
  refine ⟨n.walk_eq, ?_, hscope, ?_, fun c e w he => ?_⟩
  · exact hwalk ▸ Node.inOrder_cutOrder _ n
  · exact hscope ▸ Node.inOrder_cutOrders _ n.children
  · exact ⟨_, hoistFunction_eq n e c w, rfl, Scopes.names_declareAll he _⟩

/-- Declares a name twice, one in the head of a loop, and one in a function of its own. -/
def scatteredSource : String :=
  "var b; for (var a in \x7b\x7d) var c = function () \x7b var d; \x7d; var b;"

/-- What a program declares by `var`, if it can be read. -/
def namesRead (source : String) : List String := match parse source with
  | .ok p => scopeNames p.source p.root
  | .error _ => []

theorem namesRead_spec {source : String} (h : namesRead source ≠ []) :
    ∃ p, parse source = .ok p ∧ scopeNames p.source p.root = namesRead source := by
  unfold namesRead at h ⊢
  split at h
  · next p hread => exact ⟨p, hread, rfl⟩
  · exact absurd rfl h

theorem scatteredSource_names :
    ∃ p, parse scatteredSource = .ok p ∧ ∃ s : Scopes, s.names ⟨0⟩ = ["b", "a", "c"] ∧
      hoistFunction p.root ⟨0⟩ (Execution.outermostContext p.source false) Execution.oneScope =
        hoistBlock p.root.namedChildren ⟨0⟩ (Execution.outermostContext p.source false)
          { Execution.oneScope with scopes := s } := by
  have hnames : namesRead scatteredSource = ["b", "a", "c", "b"] := by decide +kernel
  obtain ⟨p, hread, hp⟩ := namesRead_spec (hnames ▸ List.cons_ne_nil _ _)
  obtain ⟨s, hhoists, -, hs⟩ := (walks_are_preorders p.root).2.2.2.2
    (Execution.outermostContext p.source false) ⟨0⟩ Execution.oneScope Nat.one_pos
  refine ⟨p, hread, s, ?_, hhoists⟩
  rw [hs]
  change [] ++ ((scopeNames p.source p.root).filter _).eraseDups = _
  rw [hp, hnames]
  rfl

end Action
end Stepper.Machine
