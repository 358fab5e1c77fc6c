import Stepper.Proofs.Marking

/-!
The names a plan captures. Whatever a declaration declares, a target binds, an expression assigns to
or a function takes, it is the text of a name that stands below it in the tree; so what holds of the
names of a program holds of all that its plan captures.
-/
namespace Stepper.Syntax.Node

variable {P : String → Prop} {source : String} {n c : Node} {ns : List Node}

def isName (n : Node) : Bool :=
  n.kind == .identifier || n.kind == .shorthandPropertyIdentifierPattern

/-- Something that holds of the text of every name in a tree. -/
def Named (P : String → Prop) (source : String) (n : Node) : Prop :=
  ∀ m ∈ n.preorder, m.isName = true → P (m.text source)

/-- The names in a tree are its own name and those of its children. -/
theorem named_iff : n.Named P source ↔
    (n.isName = true → P (n.text source)) ∧ ∀ c ∈ n.children, c.Named P source := by
  unfold Named
  rw [preorder_eq, List.forall_mem_cons]
  refine and_congr_right fun _ => ⟨fun h c hc m hm => h m ?_, fun h m hm => ?_⟩
  · exact mem_preorders.2 ⟨c, hc, hm⟩
  · obtain ⟨c, hc, hm⟩ := mem_preorders.1 hm
    exact h c hc m hm

theorem Named.child (h : n.Named P source) (hc : c ∈ n.children) : c.Named P source :=
  (named_iff.1 h).2 c hc

theorem Named.child? (h : n.Named P source) {f : Field} (hc : n.child? f = some c) :
    c.Named P source := h.child (List.mem_of_find?_eq_some hc)

theorem Named.of_mem_namedChildren (h : n.Named P source) (hc : c ∈ n.namedChildren) :
    c.Named P source := h.child (List.mem_of_mem_filter hc)

mutual

/-- Names bound by a pattern are names in its tree, by induction on the tree. -/
theorem boundNames_named (n : Node) (h : n.Named P source) :
    ∀ x ∈ n.boundNames source, P x := by
  match n with
  | ⟨kind, _, _, _, _, _, _, _, _, _, cs⟩ =>
    rw [named_iff] at h
    obtain ⟨hself, hchildren⟩ := h
    unfold boundNames
    split
    · exact List.forall_mem_singleton.2 (hself rfl)
    · exact List.forall_mem_singleton.2 (hself rfl)
    · exact boundNamesAt_named cs hchildren _
    · exact boundNamesAt_named cs hchildren _
    · exact boundNamesAt_named cs hchildren _
    · exact boundNamesAll_named cs hchildren
    · exact boundNamesAll_named cs hchildren
    · exact boundNamesAll_named cs hchildren
    · nofun
termination_by structural n

theorem boundNamesAt_named (ns : List Node) (h : ∀ n ∈ ns, n.Named P source) (f : Field) :
    ∀ x ∈ boundNamesAt source f ns, P x := by
  match ns with
  | [] => nofun
  | n :: ns =>
    rw [List.forall_mem_cons] at h
    unfold boundNamesAt
    split
    · exact boundNames_named n h.1
    · exact boundNamesAt_named ns h.2 f
termination_by structural ns

theorem boundNamesAll_named (ns : List Node) (h : ∀ n ∈ ns, n.Named P source) :
    ∀ x ∈ boundNamesAll source ns, P x := by
  match ns with
  | [] => nofun
  | n :: ns =>
    rw [List.forall_mem_cons] at h
    unfold boundNamesAll
    rw [List.forall_mem_append]
    refine ⟨?_, boundNamesAll_named ns h.2⟩
    split
    · exact boundNames_named n h.1
    · nofun
termination_by structural ns

end

theorem boundNames?_named {t : Option Node} (h : ∀ n ∈ t, n.Named P source) :
    ∀ x ∈ boundNames? source t, P x := by
  cases t with
  | none => nofun
  | some n => exact boundNames_named n (h n rfl)

/-- Declared names are names in the tree of the declaration. -/
theorem declaredNames_named (h : n.Named P source) : ∀ x ∈ n.declaredNames source, P x := by
  intro x hx
  obtain ⟨c, hc, hx⟩ := List.mem_flatMap.1 hx
  split at hx
  · exact boundNames?_named (fun t ht => (h.child hc).child? ht) x hx
  · cases hx

theorem Named.of_mem_parameterNodes (h : n.Named P source) (hc : c ∈ n.parameterNodes) :
    c.Named P source := by
  unfold parameterNodes at hc
  split at hc
  · exact (h.child? ‹_›).of_mem_namedChildren hc
  · exact h.child? (Option.mem_toList.1 hc)

end Stepper.Syntax.Node

namespace Stepper.Instrument

open Syntax Analysis

variable {P : String → Prop} {source : String} {n : Node}

/-- Names of parameters are names in the tree of the function. -/
theorem parameterNames_named (h : n.Named P source) : ∀ x ∈ parameterNames source n, P x := by
  intro x hx
  obtain ⟨c, hc, hx⟩ := List.mem_flatMap.1 hx
  exact Node.boundNames_named c (h.of_mem_parameterNodes hc) x hx

theorem targetNames_named {t : Option Node} (h : ∀ n ∈ t, n.Named P source) :
    ∀ x ∈ targetNames source t, P x := by
  cases t with
  | none => nofun
  | some n =>
    have hn := h n rfl
    unfold targetNames
    split
    · nofun
    · rename_i t ht
      cases ht
      split
      · rename_i hkind
        exact List.forall_mem_singleton.2 ((Node.named_iff.1 hn).1 (by simp [Node.isName, hkind]))
      · exact Node.boundNames_named n hn
      · exact Node.boundNames_named n hn
      · nofun

mutual

/-- Assigned names are names in the tree of the assignment, by induction on the tree. -/
theorem assignedNames_named (n : Node) (h : n.Named P source) :
    ∀ x ∈ assignedNames source n, P x := by
  match n with
  | ⟨kind, _, _, _, _, _, _, _, _, _, cs⟩ =>
    have hchildren := (Node.named_iff.1 h).2
    unfold assignedNames
    simp only
    split
    -- the target of an assignment may stand in parentheses
    case h_1 | h_2 =>
      refine targetNames_named fun m hm => ?_
      split at hm
      · rename_i l hl
        split at hm
        · exact (h.child? hl).of_mem_namedChildren (List.mem_of_mem_head? hm)
        · exact h.child? hm
      · cases hm
    · exact targetNames_named fun m hm => h.child? hm
    · exact assignedNamesAll_named cs hchildren
    · nofun
termination_by structural n

theorem assignedNamesAll_named (ns : List Node) (h : ∀ n ∈ ns, n.Named P source) :
    ∀ x ∈ assignedNamesAll source ns, P x := by
  match ns with
  | [] => nofun
  | n :: ns =>
    rw [List.forall_mem_cons] at h
    unfold assignedNamesAll
    rw [List.forall_mem_append]
    refine ⟨?_, assignedNamesAll_named ns h.2⟩
    split
    · exact assignedNames_named n h.1
    · nofun
termination_by structural ns

end

/-- Captured names are names in the tree of the statement. -/
theorem capturedNames_named (h : n.Named P source) : ∀ x ∈ capturedNames source n, P x := by
  unfold capturedNames
  split
  · exact Node.declaredNames_named h
  · split
    · split
      · rename_i e he
        exact assignedNames_named e (h.of_mem_namedChildren (List.mem_of_mem_head? he))
      · nofun
    · nofun

theorem headNames_named (h : n.Named P source) : ∀ x ∈ headNames source n, P x := by
  unfold headNames
  split
  · split
    · rename_i i hi
      split
      · exact Node.declaredNames_named (h.child? hi)
      · nofun
    · nofun
  · split
    · split
      · exact Node.boundNames?_named fun m hm => h.child? hm
      · exact targetNames_named fun m hm => h.child? hm
    · nofun

/-- Names that are left once are names that were there. -/
theorem dedup_named {names : List String} (h : ∀ x ∈ names, P x) : ∀ x ∈ dedup names, P x := by
  have hfold (names : List String) (acc : List String) (hacc : ∀ x ∈ acc, P x)
      (h : ∀ x ∈ names, P x) :
      ∀ x ∈ names.foldl (fun acc n => if acc.contains n then acc else acc ++ [n]) acc, P x := by
    induction names generalizing acc with
    | nil => exact hacc
    | cons n names ih =>
      obtain ⟨hn, hnames⟩ := List.forall_mem_cons.1 h
      rw [List.foldl_cons]
      refine ih _ ?_ hnames
      split
      · exact hacc
      · exact List.forall_mem_append.2 ⟨hacc, List.forall_mem_singleton.2 hn⟩
  exact hfold names [] nofun h

/-- Something that holds of all names that a node is marked with. -/
structure Marks.Named (P : String → Prop) (m : Marks) : Prop where
  after : ∀ x ∈ m.after, P x
  atStart : ∀ x ∈ m.atStart, P x
  parameters : ∀ f ∈ m.function, ∀ x ∈ f.parameters, P x

/-- Something that holds of all names in a plan. -/
def Plan.Named (P : String → Prop) (p : Plan) : Prop := ∀ n, (p.get n).Named P

/-- A change that brings only such names keeps a plan so. -/
theorem Plan.Named.modify {p : Plan} (hp : p.Named P) (n : Node) {f : Marks → Marks}
    (hf : ∀ m : Marks, m.Named P → (f m).Named P) : (p.modify n f).Named P := by
  intro m
  rw [Plan.get_modify]
  split
  · exact hf _ (hp m)
  · exact hp m

section

variable {p : Plan} {s : Sited} (hp : p.Named P)

include hp

/-- A visit of a statement brings names of its tree. -/
theorem markStatement_named (hs : s.node.Named P source) :
    (markStatement source s p).Named P := by
  unfold markStatement
  split
  · rename_i hstep
    have hstepped : (markStep s.ancestors s.node p).Named P := by
      rw [markStep_eq hstep]
      exact hp.modify s.node fun m hm => ⟨hm.after, hm.atStart, hm.parameters⟩
    rw [markCaptures_eq]
    split
    · exact hstepped
    · exact hstepped.modify _ fun m hm =>
        ⟨dedup_named (capturedNames_named hs), hm.atStart, hm.parameters⟩
  · exact hp

theorem markLoop_named (hs : s.node.Named P source) : (markLoop source s p).Named P := by
  unfold markLoop markHead
  split
  · split
    · exact hp
    · simp only
      split
      · exact hp
      · refine hp.modify _ fun m hm => ⟨hm.after, dedup_named ?_, hm.parameters⟩
        exact List.forall_mem_append.2 ⟨hm.atStart, headNames_named hs⟩
  · exact hp

theorem markEntry_named (hs : s.node.Named P source) : (markEntry source s p).Named P := by
  unfold markEntry
  split
  · refine hp.modify _ fun m hm => ⟨hm.after, hm.atStart, fun f hf => ?_⟩
    cases hf
    exact parameterNames_named hs
  · exact hp

theorem markLeave_named : (markLeave s p).Named P := by
  unfold markLeave
  split
  · exact hp.modify _ fun m hm => ⟨hm.after, hm.atStart, hm.parameters⟩
  · exact hp

/-- A visit brings names of the tree it visits only. -/
theorem visit_named (hs : s.node.Named P source) : (visit source p s).Named P := by
  rw [visit_eq]
  exact markLeave_named (markEntry_named (markLoop_named (markStatement_named hp hs) hs) hs)

end

/-- What holds of the names of a program holds of all that its plan captures. -/
theorem planOf_named {p : Program} (h : p.root.Named P p.source) : (planOf p).Named P := by
  have hvisits (ss : List Sited) (hss : ∀ s ∈ ss, s.node.Named P p.source) (q : Plan)
      (hq : q.Named P) : (ss.foldl (visit p.source) q).Named P := by
    induction ss generalizing q with
    | nil => exact hq
    | cons s ss ih =>
      obtain ⟨hs, hss⟩ := List.forall_mem_cons.1 hss
      exact ih hss _ (visit_named hq hs)
  rw [planOf_eq_foldl]
  refine hvisits _ (fun s hs => ?_) _ fun n => ?_
  · have hmem : s.node ∈ p.root.preorder := sited_nodes [] p.root ▸ List.mem_map_of_mem hs
    exact fun m hm => h m (Node.preorder_trans p.root hmem hm)
  · have hget : (Plan.get ⟨Array.replicate p.root.size {}, 0⟩ n) = {} := by
      unfold Plan.get
      rw [Array.getD_eq_getD_getElem?, Array.getElem?_replicate]
      split <;> rfl
    rw [hget]
    exact ⟨nofun, nofun, nofun⟩

end Stepper.Instrument
