import Stepper.Analysis.Analyze
import Stepper.Instrument.Marks
import Stepper.Proofs.Placing

/-!
What a plan marks. Each node is visited once and makes its own marks: a step if it is a statement
that stands where one runs, with the number of steps before it and the line it begins in; the entry
and exit of a function that has a body; a return if such a function is around it. What is captured
where the body of a loop begins is the one mark that another node makes, the loop.
-/
namespace Stepper.Instrument

open Syntax Analysis

/-- Whether a node is a function that can be entered. -/
def isEntered (n : Node) : Bool := n.kind.isFunction && (n.child? .body).isSome

def isInFunction (ancestors : List Node) : Bool := ancestors.any isEntered

/-- Whether a node is a step where it stands. -/
def isStep (s : Sited) : Bool :=
  isStepKind s.node.kind && inStatementPosition s.ancestors.head? s.node

/-- A visit of the planner. -/
def visit (source : String) (p : Plan) (s : Sited) : Plan :=
  (markNode source s.ancestors (isInFunction s.ancestors) s.node p).1

section

variable {source : String} {ancestors : List Node} {n : Node} {p : Plan}

theorem markNode_inside (n : Node) :
    (markNode source ancestors (isInFunction ancestors) n p).2 =
      isInFunction (n :: ancestors) := by
  unfold markNode isInFunction
  rw [List.any_cons]
  by_cases hn : isEntered n = true
  · simp only [hn, Bool.true_or]
    unfold isEntered at hn
    simp only [hn, if_true]
  · unfold isEntered at hn ⊢
    simp only [hn, Bool.false_or]
    rfl

mutual

theorem planNode_eq_foldl (ancestors : List Node) (n : Node) (p : Plan) :
    planNode source ancestors (isInFunction ancestors) n p =
      (sited ancestors n).foldl (visit source) p := by
  match n with
  | ⟨_, _, _, _, _, _, _, _, _, _, cs⟩ =>
    rw [planNode, sited, List.foldl_cons]
    simp only [markNode_inside]
    exact planNodes_eq_foldl _ cs _
termination_by structural n

theorem planNodes_eq_foldl (ancestors : List Node) (ns : List Node) (p : Plan) :
    planNodes source ancestors (isInFunction ancestors) ns p =
      (sitedAll ancestors ns).foldl (visit source) p := by
  match ns with
  | [] => rfl
  | n :: ns =>
    rw [planNodes, sitedAll, List.foldl_append, planNode_eq_foldl ancestors n p]
    exact planNodes_eq_foldl ancestors ns _
termination_by structural ns

end

/-- The visits of the planner, one after the other. -/
theorem planOf_eq_foldl (p : Program) :
    planOf p = (sited [] p.root).foldl (visit p.source) ⟨Array.replicate p.root.size {}, 0⟩ :=
  planNode_eq_foldl [] p.root _

end

mutual

theorem sited_nodes (ancestors : List Node) (n : Node) :
    (sited ancestors n).map Sited.node = n.preorder := by
  match n with
  | ⟨_, _, _, _, _, _, _, _, _, _, cs⟩ =>
    rw [sited, Node.preorder, List.map_cons, sitedAll_nodes _ cs]
termination_by structural n

theorem sitedAll_nodes (ancestors : List Node) (ns : List Node) :
    (sitedAll ancestors ns).map Sited.node = Node.preorders ns := by
  match ns with
  | [] => rfl
  | n :: ns =>
    rw [sitedAll, List.map_append, sited_nodes ancestors n, sitedAll_nodes ancestors ns]
    rfl
termination_by structural ns

end

/-- The names captured after a statement. -/
def capturedNames (source : String) (n : Node) : List String :=
  if n.kind.isDeclaration then n.declaredNames source
  else if n.kind == .expressionStatement then
    match n.namedChildren.head? with
    | some e => assignedNames source e
    | none => []
  else []

/-- What a node is marked with where it stands, behind `k` steps. -/
def marksOf (source : String) (k : Nat) (s : Sited) : Marks where
  step := if isStep s then some ⟨k, s.node.startLine⟩ else none
  after := if isStep s then dedup (capturedNames source s.node) else []
  function :=
    if isEntered s.node then
      some ⟨functionName source s.ancestors s.node, parameterNames source s.node⟩
    else none
  leaves := s.node.kind == .returnStatement && isInFunction (s.node :: s.ancestors)

/-- The marks that a node makes itself. -/
def Marks.own (m : Marks) : Marks := { m with atStart := [] }

theorem Marks.eq_of_own {m : Marks} (h : m.own = {}) : m = { atStart := m.atStart } := by
  cases m
  simp_all [own]

namespace Plan

variable {p q r : Plan} {m n : Node} {f : Marks → Marks}

theorem get_modify (p : Plan) (m n : Node) (f : Marks → Marks) :
    (p.modify n f).get m =
      if m.id = n.id ∧ n.id < p.marks.size then f (p.get m) else p.get m := by
  unfold get modify
  simp only [Array.getD_eq_getD_getElem?, Array.getElem?_modify]
  by_cases hid : n.id = m.id
  · by_cases hlt : n.id < p.marks.size
    · rw [if_pos hid, if_pos ⟨hid.symm, hlt⟩, ← hid, Array.getElem?_eq_getElem hlt]
      rfl
    · rw [if_pos hid, if_neg fun h => hlt h.2, ← hid, Array.getElem?_eq_none (by omega)]
      rfl
  · rw [if_neg hid, if_neg fun h => hid h.1.symm]

/-- What is captured where a body begins is no mark of its own. -/
theorem own_modify (n m : Node) (hf : ∀ q, (f q).own = q.own) :
    ((p.modify n f).get m).own = (p.get m).own := by
  rw [get_modify]
  split
  · exact hf _
  · rfl

/-- Two plans with one number of nodes that agree on what all nodes but one mark themselves. -/
structure AgreeBut (n : Node) (p q : Plan) : Prop where
  size : q.marks.size = p.marks.size
  own : ∀ m : Node, m.id ≠ n.id → (q.get m).own = (p.get m).own

namespace AgreeBut

theorem refl (n : Node) (p : Plan) : AgreeBut n p p := ⟨rfl, fun _ _ => rfl⟩

theorem trans (h : AgreeBut n p q) (h' : AgreeBut n q r) : AgreeBut n p r :=
  ⟨h'.size.trans h.size, fun m hm => (h'.own m hm).trans (h.own m hm)⟩

theorem count (h : AgreeBut n p q) (k : Nat) : AgreeBut n p { q with steps := k } :=
  ⟨h.size, h.own⟩

theorem modify (n : Node) (p : Plan) (f : Marks → Marks) : AgreeBut n p (p.modify n f) :=
  ⟨Array.size_modify, fun m hm => by rw [get_modify, if_neg fun h => hm h.1]⟩

end AgreeBut
end Plan

/-! The planner looks at a node as a statement, as a loop, as a function and as a return, in turn.
-/

def markStatement (source : String) (s : Sited) (p : Plan) : Plan :=
  if isStep s then markCaptures source s.node (markStep s.ancestors s.node p) else p

def markLoop (source : String) (s : Sited) (p : Plan) : Plan :=
  if s.node.kind.isLoop then markHead source s.node p else p

def markEntry (source : String) (s : Sited) (p : Plan) : Plan :=
  if isEntered s.node then
    p.modify s.node fun m => { m with
      function := some
        ⟨functionName source s.ancestors s.node, parameterNames source s.node⟩ }
  else p

def markLeave (s : Sited) (p : Plan) : Plan :=
  if s.node.kind == .returnStatement && isInFunction (s.node :: s.ancestors) then
    p.modify s.node fun m => { m with leaves := true }
  else p

section

variable {source : String} {p : Plan} {s : Sited} {n : Node}

theorem visit_eq : visit source p s =
    markLeave s (markEntry source s (markLoop source s (markStatement source s p))) := by
  unfold visit markLeave markEntry isInFunction
  rw [List.any_cons]
  by_cases hn : isEntered s.node = true
  · have hentered : (s.node.kind.isFunction && (s.node.child? .body).isSome) = true := hn
    simp only [markNode, hentered, hn, Bool.true_or, if_true]
    rfl
  · have hentered : (s.node.kind.isFunction && (s.node.child? .body).isSome) = false :=
      Bool.eq_false_iff.2 hn
    simp only [markNode, hentered, Bool.eq_false_iff.2 hn, Bool.false_or]
    rfl

/-! As a statement. -/

/-- Nothing below a label is in the position of a statement, so each step is numbered. -/
theorem markStep_eq (h : isStep s = true) :
    markStep s.ancestors s.node p = { p.modify s.node fun m =>
      { m with step := some ⟨p.steps, s.node.startLine⟩ } with steps := p.steps + 1 } := by
  have hposition := (Bool.and_eq_true_iff.1 h).2
  unfold markStep
  rw [if_neg]
  intro hlabel
  cases hparent : s.ancestors.head? with
  | none => simp [hparent] at hlabel
  | some a =>
    simp only [hparent, Option.any_some, beq_iff_eq] at hlabel
    simp [hparent, inStatementPosition, holdsStatements, Kind.isLoop, hlabel] at hposition

theorem markCaptures_eq : markCaptures source n p = if capturedNames source n = [] then p
    else p.modify n fun m => { m with after := dedup (capturedNames source n) } := by
  unfold markCaptures
  simp only [← List.isEmpty_iff]
  rfl

theorem markStatement_agree : Plan.AgreeBut s.node p (markStatement source s p) := by
  unfold markStatement
  split
  · rename_i hstep
    have hcounted : Plan.AgreeBut s.node p (markStep s.ancestors s.node p) := by
      rw [markStep_eq hstep]
      exact .count (.modify _ _ _) _
    rw [markCaptures_eq]
    split
    · exact hcounted
    · exact hcounted.trans (.modify _ _ _)
  · exact .refl _ _

theorem markStatement_steps :
    (markStatement source s p).steps = if isStep s then p.steps + 1 else p.steps := by
  unfold markStatement
  split
  · rename_i hstep
    rw [markStep_eq hstep, markCaptures_eq]
    split <;> rfl
  · rfl

theorem markStatement_own (source : String) (hid : s.node.id < p.marks.size)
    (hnew : (p.get s.node).own = {}) :
    ((markStatement source s p).get s.node).own =
      { marksOf source p.steps s with function := none, leaves := false } := by
  unfold markStatement marksOf
  by_cases hstep : isStep s = true
  · have hget : (markStep s.ancestors s.node p).get s.node =
        { step := some ⟨p.steps, s.node.startLine⟩, atStart := (p.get s.node).atStart } := by
      rw [markStep_eq hstep]
      refine (Plan.get_modify _ _ _ _).trans ?_
      rw [if_pos ⟨rfl, hid⟩, Marks.eq_of_own hnew]
    have hsize : s.node.id < (markStep s.ancestors s.node p).marks.size := by
      rw [markStep_eq hstep]
      exact hid.trans_eq Array.size_modify.symm
    simp only [hstep, if_true, markCaptures_eq]
    split
    · rename_i hnames
      rw [hget, hnames]
      rfl
    · rw [Plan.get_modify, if_pos ⟨rfl, hsize⟩, hget]
      rfl
  · simp only [hstep]
    exact hnew

/-! As a loop. -/

/-- Of a loop, only the captures at the start of its body are marked. -/
theorem markLoop_cases (source : String) (s : Sited) (p : Plan) : markLoop source s p = p ∨
    ∃ (body : Node) (f : Marks → Marks), (∀ q, (f q).own = q.own) ∧
      markLoop source s p = p.modify body f := by
  unfold markLoop markHead
  split
  · split
    · exact .inl rfl
    · simp only
      split
      · exact .inl rfl
      · refine .inr ⟨_, _, ?_, rfl⟩
        exact fun _ => rfl
  · exact .inl rfl

theorem markLoop_own (source : String) (s : Sited) (p : Plan) (n : Node) :
    ((markLoop source s p).get n).own = (p.get n).own := by
  obtain h | ⟨body, f, hf, h⟩ := markLoop_cases source s p
  · rw [h]
  · rw [h, Plan.own_modify _ _ hf]

theorem markLoop_size : (markLoop source s p).marks.size = p.marks.size := by
  obtain h | ⟨body, f, hf, h⟩ := markLoop_cases source s p
  · rw [h]
  · rw [h]
    exact Array.size_modify

theorem markLoop_steps : (markLoop source s p).steps = p.steps := by
  obtain h | ⟨body, f, hf, h⟩ := markLoop_cases source s p
  · rw [h]
  · rw [h]
    rfl

/-! As a function and as a return. -/

theorem markEntry_agree : Plan.AgreeBut s.node p (markEntry source s p) := by
  unfold markEntry
  split
  · exact .modify _ _ _
  · exact .refl _ _

theorem markEntry_steps : (markEntry source s p).steps = p.steps := by
  unfold markEntry
  split <;> rfl

theorem markEntry_own (source : String) (hid : s.node.id < p.marks.size) (k : Nat)
    (hnew : ((p.get s.node).own).function = none) :
    ((markEntry source s p).get s.node).own =
      { (p.get s.node).own with function := (marksOf source k s).function } := by
  unfold markEntry marksOf
  split
  · rw [Plan.get_modify, if_pos ⟨rfl, hid⟩]
    rfl
  · rw [← hnew]

theorem markLeave_agree : Plan.AgreeBut s.node p (markLeave s p) := by
  unfold markLeave
  split
  · exact .modify _ _ _
  · exact .refl _ _

theorem markLeave_steps : (markLeave s p).steps = p.steps := by
  unfold markLeave
  split <;> rfl

theorem markLeave_own (hid : s.node.id < p.marks.size) (k : Nat)
    (hnew : ((p.get s.node).own).leaves = false) :
    ((markLeave s p).get s.node).own =
      { (p.get s.node).own with leaves := (marksOf source k s).leaves } := by
  unfold markLeave marksOf
  split
  · rename_i hleaves
    rw [Plan.get_modify, if_pos ⟨rfl, hid⟩, hleaves]
    rfl
  · rename_i hleaves
    rw [Bool.eq_false_iff.2 hleaves, ← hnew]

theorem visit_agree : Plan.AgreeBut s.node p (visit source p s) := by
  have hloop : Plan.AgreeBut s.node p (markLoop source s (markStatement source s p)) :=
    markStatement_agree.trans ⟨markLoop_size, fun m _ => markLoop_own source s _ m⟩
  rw [visit_eq]
  exact (hloop.trans markEntry_agree).trans markLeave_agree

theorem visit_steps : (visit source p s).steps = if isStep s then p.steps + 1 else p.steps := by
  rw [visit_eq, markLeave_steps, markEntry_steps, markLoop_steps, markStatement_steps]

theorem visit_own (hid : s.node.id < p.marks.size) (hnew : (p.get s.node).own = {}) :
    ((visit source p s).get s.node).own = marksOf source p.steps s := by
  have hsize : (markLoop source s (markStatement source s p)).marks.size = p.marks.size :=
    markLoop_size.trans markStatement_agree.size
  have hown := (markLoop_own source s _ s.node).trans (markStatement_own source hid hnew)
  have hentry := markEntry_own source (hid.trans_eq hsize.symm) p.steps (by rw [hown])
  rw [visit_eq, markLeave_own (hid.trans_eq (markEntry_agree.size.trans hsize).symm) p.steps
    (by rw [hentry, hown]), hentry, hown]

end

/-- The marks of several nodes in a row, the first one behind `k` steps. -/
def marksFrom (source : String) (k : Nat) : List Sited → List Marks
  | [] => []
  | s :: ss => marksOf source k s :: marksFrom source (if isStep s then k + 1 else k) ss

/-- What visits of other nodes leave alone. -/
theorem visits_agree {source : String} {ss : List Sited} {p : Plan} {n : Node}
    (hn : ∀ s ∈ ss, n.id ≠ s.node.id) :
    ((ss.foldl (visit source) p).get n).own = (p.get n).own := by
  induction ss generalizing p with
  | nil => rfl
  | cons s ss ih =>
    obtain ⟨hs, hss⟩ := List.forall_mem_cons.1 hn
    rw [List.foldl_cons, ih hss, visit_agree.own n hs]

/-- Visits of different nodes, none of them marked before. -/
theorem visits_own {source : String} {ss : List Sited} {p : Plan}
    (hnodup : (ss.map fun s => s.node.id).Nodup) (hid : ∀ s ∈ ss, s.node.id < p.marks.size)
    (hnew : ∀ s ∈ ss, (p.get s.node).own = {}) :
    (ss.map fun s => ((ss.foldl (visit source) p).get s.node).own) =
      marksFrom source p.steps ss := by
  induction ss generalizing p with
  | nil => rfl
  | cons s ss ih =>
    rw [List.map_cons, List.nodup_cons] at hnodup
    obtain ⟨hfresh, hnodup⟩ := hnodup
    obtain ⟨hs, hids⟩ := List.forall_mem_cons.1 hid
    obtain ⟨hsnew, hnews⟩ := List.forall_mem_cons.1 hnew
    have hother : ∀ u ∈ ss, u.node.id ≠ s.node.id := fun u hu heq =>
      hfresh (heq ▸ List.mem_map_of_mem hu)
    have hrest := ih (p := visit source p s) hnodup
      (fun u hu => (hids u hu).trans_eq visit_agree.size.symm)
      (fun u hu => (visit_agree.own _ (hother u hu)).trans (hnews u hu))
    rw [List.map_cons, List.foldl_cons, hrest, visits_agree fun u hu => (hother u hu).symm,
      visit_own hs hsnew, visit_steps]
    rfl

/-- The plan of a program marks each node by where it stands, and by the steps before it. -/
theorem planOf_own {p : Program} (hp : p.IsPlaced) :
    ((sited [] p.root).map fun s => ((planOf p).get s.node).own) =
      marksFrom p.source 0 (sited [] p.root) := by
  have hids : ((sited [] p.root).map fun s => s.node.id) = List.range p.root.size := by
    rw [← hp.numbers, ← sited_nodes [] p.root, List.map_map]
    rfl
  have hbound : ∀ s ∈ sited [] p.root, s.node.id < p.root.size := fun s hs => by
    have hmem := List.mem_map_of_mem (f := fun s : Sited => s.node.id) hs
    rwa [hids, List.mem_range] at hmem
  rw [planOf_eq_foldl]
  refine visits_own (p := ⟨Array.replicate p.root.size {}, 0⟩) (hids ▸ List.nodup_range) ?_ ?_
  · simpa using hbound
  · intro s hs
    simp [Plan.get, hbound s hs]
    rfl

/-- The steps of nodes in a row are numbered on. -/
theorem marksFrom_steps (source : String) (k : Nat) (ss : List Sited) :
    ((marksFrom source k ss).filterMap Marks.step).map StepMarker.id =
      List.range' k (ss.countP isStep) := by
  induction ss generalizing k with
  | nil => rfl
  | cons s ss ih =>
    rw [marksFrom, List.filterMap_cons, List.countP_cons]
    by_cases hs : isStep s = true
    · simp only [marksOf, hs, if_true]
      rw [List.map_cons, ih, List.range'_succ]
    · simp only [marksOf, hs]
      exact ih k

/-- In the order of the tree the steps are numbered from zero on, each one once. -/
theorem steps_numbered {p : Program} (hp : p.IsPlaced) :
    (p.root.preorder.filterMap fun n => ((planOf p).get n).step).map StepMarker.id =
      List.range ((sited [] p.root).countP isStep) := by
  rw [List.range_eq_range', ← marksFrom_steps p.source, ← planOf_own hp, List.filterMap_map,
    ← sited_nodes [] p.root, List.filterMap_map]
  rfl

theorem marksOf_of_mem {source : String} {k : Nat} {ss : List Sited} {f : Sited → Marks}
    (h : ss.map f = marksFrom source k ss) {s : Sited} (hs : s ∈ ss) :
    ∃ j, f s = marksOf source j s := by
  induction ss generalizing k with
  | nil => cases hs
  | cons u ss ih =>
    obtain ⟨hu, hss⟩ := List.cons.inj h
    rcases List.mem_cons.1 hs with rfl | hs
    · exact ⟨k, hu⟩
    · exact ih hss hs

/-- A node is a step of the plan if it is one where it stands, with the line it begins in; it is
entered if it is a function that has a body, and it leaves one if it is a return inside of one. -/
theorem planOf_marks {p : Program} (hp : p.IsPlaced) {s : Sited} (hs : s ∈ sited [] p.root) :
    ((planOf p).get s.node).step.isSome = isStep s ∧
      (∀ m ∈ ((planOf p).get s.node).step, m.line = s.node.startLine) ∧
      ((planOf p).get s.node).function.isSome = isEntered s.node ∧
      ((planOf p).get s.node).leaves =
        (s.node.kind == .returnStatement && isInFunction (s.node :: s.ancestors)) := by
  obtain ⟨k, hk⟩ := marksOf_of_mem (planOf_own hp) hs
  change ((planOf p).get s.node).own.step.isSome = isStep s ∧
    (∀ m ∈ ((planOf p).get s.node).own.step, m.line = s.node.startLine) ∧
    ((planOf p).get s.node).own.function.isSome = isEntered s.node ∧
    ((planOf p).get s.node).own.leaves = _
  rw [hk]
  unfold marksOf
  refine ⟨?_, ?_, ?_, rfl⟩
  · cases isStep s <;> rfl
  · intro m hm
    cases hs : isStep s
    · simp [hs] at hm
    · simp only [hs, if_true, Option.mem_some_iff] at hm
      rw [← hm]
  · cases isEntered s.node <;> rfl

/-- Where the nodes that have a body and the kind of a function are just those of them that are
named, as many functions are marked as the report on the program lists. -/
theorem functions_marked {p : Program} (hp : p.IsPlaced)
    (h : ∀ n ∈ p.root.preorder, n.kind.isFunction = true → n.named = isEntered n) :
    p.root.preorder.countP (fun n => ((planOf p).get n).function.isSome) =
      (report p).functions.length := by
  have hmarked : ∀ s ∈ sited [] p.root,
      ((planOf p).get s.node).function.isSome = (s.node.named && s.node.kind.isFunction) := by
    intro s hs
    rw [(planOf_marks hp hs).2.2.1]
    have hn := h s.node (sited_nodes [] p.root ▸ List.mem_map_of_mem hs)
    unfold isEntered at hn ⊢
    cases hkind : s.node.kind.isFunction with
    | false => simp
    | true => simp_all
  have hcount : (report p).functions.length =
      (sited [] p.root).countP fun s => s.node.named && s.node.kind.isFunction := by
    simp only [report, List.length_map, List.filter_map, List.filter_filter,
      List.countP_eq_length_filter]
    congr 1
    exact List.filter_congr fun s _ => Bool.and_comm _ _
  rw [hcount, ← sited_nodes [] p.root, List.countP_map]
  exact List.countP_congr fun s hs => by rw [← hmarked s hs]; rfl

end Stepper.Instrument
