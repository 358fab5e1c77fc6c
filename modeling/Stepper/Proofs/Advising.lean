import Stepper.Proofs.Deciding

/-!
What suggestions are about. A node gives rise to one suggestion at most, and they stand in the order
of their nodes. There is one for each declaration by `var`, for each function that is too complex,
and for each loop that is reported as infinite, and no other. The head of a `for (var x of xs)` is
no declaration of its own: it is reported as a variable, but gives rise to no suggestion.
-/
namespace Stepper.Analysis

open Syntax

variable {source : String} {n : Node} {p : Program}

def varAdvice (line : Nat) : Suggestion :=
  ⟨"warning", "Consider using let or const instead of var", line, .medium⟩

def functionAdvice (name : String) (line : Nat) : Suggestion :=
  ⟨"warning", s!"Function '{name}' has high complexity. Consider breaking it down.", line, .high⟩

def loopAdvice (line : Nat) : Suggestion :=
  ⟨"error", "Potential infinite loop detected", line, .critical⟩

def isVarDeclaration (source : String) (n : Node) : Bool :=
  n.kind.isDeclaration && n.declarationWord source == "var"

def isTooComplex (f : FunctionInfo) : Bool := complexityThreshold < f.complexity

theorem isDeclaration_eq_false_of_isFunction {k : Kind} (h : k.isFunction = true) :
    k.isDeclaration = false := by
  cases k <;> first | rfl | cases h

theorem isLoop_eq_false_of_isFunction {k : Kind} (h : k.isFunction = true) : k.isLoop = false := by
  cases k <;> first | rfl | cases h

theorem isLoop_eq_false_of_isDeclaration {k : Kind} (h : k.isDeclaration = true) :
    k.isLoop = false := by
  cases k <;> first | rfl | cases h

theorem isInfiniteLoop_eq_false (h : n.kind.isLoop = false) : isInfiniteLoop n = false := by
  unfold isInfiniteLoop
  split <;> simp_all [Kind.isLoop]

/-- What a node gives rise to of a severity. -/
def advice? (source : String) (n : Node) : Severity → Option Suggestion
  | .low => none
  | .medium => if isVarDeclaration source n then some (varAdvice n.startLine) else none
  | .high => if n.kind.isFunction && isTooComplex (functionInfo source n) then
      some (functionAdvice (functionName source n) n.startLine) else none
  | .critical => if isInfiniteLoop n then some (loopAdvice n.startLine) else none

/-- A suggestion is of the severity and the line that are asked for. -/
theorem advice?_spec {s : Severity} {x : Suggestion} (h : advice? source n s = some x) :
    x.severity = s ∧ x.line = n.startLine := by
  unfold advice? at h
  split at h
  · cases h
  all_goals
    split at h
    · cases h
      exact ⟨rfl, rfl⟩
    · cases h

/-- The suggestions on a node, by their severities. -/
theorem suggestions_eq (source : String) (n : Node) :
    suggestions source n = Severity.all.filterMap (advice? source n) := by
  have hall : Severity.all.filterMap (advice? source n) = (advice? source n .medium).toList ++
      ((advice? source n .high).toList ++ (advice? source n .critical).toList) := by
    rw [List.filterMap_eq_flatMap_toList]
    simp [Severity.all, advice?]
  rw [hall]
  unfold suggestions advice?
  by_cases hfunction : n.kind.isFunction = true
  · rw [if_pos hfunction, isVarDeclaration, isDeclaration_eq_false_of_isFunction hfunction,
      hfunction, isInfiniteLoop_eq_false (isLoop_eq_false_of_isFunction hfunction)]
    by_cases h : complexityThreshold < complexity source n <;>
      simp [isTooComplex, functionInfo, functionAdvice, h]
  · rw [if_neg hfunction, Bool.eq_false_iff.mpr hfunction]
    by_cases hdeclaration : n.kind.isDeclaration = true
    · rw [if_pos hdeclaration, isVarDeclaration, hdeclaration,
        isInfiniteLoop_eq_false (isLoop_eq_false_of_isDeclaration hdeclaration)]
      by_cases h : n.declarationWord source = "var" <;> simp [varAdvice, h]
    · rw [if_neg hdeclaration, isVarDeclaration, Bool.eq_false_iff.mpr hdeclaration]
      cases isInfiniteLoop n <;> rfl

/-- There is one suggestion on a node at most. -/
theorem suggestions_length (source : String) (n : Node) : (suggestions source n).length ≤ 1 := by
  unfold suggestions
  split
  · split <;> simp
  · split
    · split <;> simp
    · split <;> simp

theorem filter_suggestions (source : String) (n : Node) (s : Severity) :
    (suggestions source n).filter (·.severity == s) = (advice? source n s).toList := by
  have hadvice (s' : Severity) : (advice? source n s').filter (·.severity == s) =
      if s' = s then advice? source n s else none := by
    cases h : advice? source n s' with
    | none => split <;> simp_all
    | some x =>
      rw [Option.filter_some, (advice?_spec h).1]
      split <;> simp_all
  rw [suggestions_eq, List.filter_filterMap]
  simp only [hadvice]
  cases s <;> cases advice? source n _ <;> rfl

/-- A loop that is reported as infinite is one that gives rise to a suggestion. -/
theorem infinite_loop? (source : String) (n : Node) :
    ((loop? n).filter (·.isInfinite)).map (fun l => loopAdvice l.line) =
      advice? source n .critical := by
  have hfinite (h : n.kind ≠ .forStatement) (h' : n.kind ≠ .whileStatement) :
      isInfiniteLoop n = false := by
    unfold isInfiniteLoop
    split <;> first | rfl | contradiction
  unfold loop? advice?
  split
  · cases h : isInfiniteLoop n <;> rfl
  · cases h : isInfiniteLoop n <;> rfl
  · rw [hfinite (by simp [*]) (by simp [*])]
    rfl
  · rw [hfinite (by simp [*]) (by simp [*])]
    rfl
  · rw [hfinite (by assumption) (by assumption)]
    rfl

theorem filterMap_ite {α β : Type} (P : α → Bool) (f : α → β) (as : List α) :
    (as.filterMap fun a => if P a then some (f a) else none) = (as.filter P).map f := by
  induction as with
  | nil => rfl
  | cons a as ih => cases h : P a <;> simp [h, ih]

/-- The named nodes of a program in preorder. -/
def namedNodes (p : Program) : List Node := p.root.preorder.filter (·.named)

/-- The suggestions of a report come node by node, in order. -/
theorem report_suggestions (p : Program) :
    (report p).suggestions = (namedNodes p).flatMap (suggestions p.source) :=
  congrArg (List.flatMap (suggestions p.source)) (named_sited p)

theorem suggestionsOf_eq (p : Program) (s : Severity) :
    (report p).suggestionsOf s = (namedNodes p).filterMap fun n => advice? p.source n s := by
  unfold Report.suggestionsOf
  rw [report_suggestions, List.filter_flatMap, List.filterMap_eq_flatMap_toList]
  exact congrArg (List.flatMap · _) (funext fun n => filter_suggestions p.source n s)

/-- There is one for each function that is too complex. -/
theorem suggestionsOf_high (p : Program) : (report p).suggestionsOf .high =
    ((report p).functions.filter isTooComplex).map fun f => functionAdvice f.name f.line := by
  have hfunctions : (report p).functions =
      ((namedNodes p).filter (·.kind.isFunction)).map (functionInfo p.source) := by
    rw [namedNodes, ← named_sited]
    rfl
  rw [suggestionsOf_eq, hfunctions, List.filter_map, List.filter_filter, List.map_map,
    ← filterMap_ite]
  refine congrArg (List.filterMap · _) (funext fun n => ?_)
  rw [Bool.and_comm]
  rfl

/-- There is one for each loop that is infinite. -/
theorem suggestionsOf_critical (p : Program) : (report p).suggestionsOf .critical =
    ((report p).loops.filter (·.isInfinite)).map fun l => loopAdvice l.line := by
  have hloops : (report p).loops = (namedNodes p).filterMap loop? := by
    rw [namedNodes, ← named_sited]
    rfl
  rw [suggestionsOf_eq, hloops, List.filter_filterMap, List.map_filterMap]
  exact congrArg (List.filterMap · _) (funext fun n => (infinite_loop? p.source n).symm)

/-- The suggestions account for what was found. They stand in the order of their nodes, one for a
node at most and on its line. The medium ones are those about declarations by `var`, the high ones
those about functions that are too complex, and the critical ones those about loops that are
reported as infinite; there are no others. -/
theorem suggestions_account_for_findings (p : Program) :
    (report p).suggestions = (namedNodes p).flatMap (suggestions p.source) ∧
    (∀ n, (suggestions p.source n).length ≤ 1 ∧
      ∀ x ∈ suggestions p.source n, x.line = n.startLine) ∧
    (report p).suggestionsOf .low = [] ∧
    (report p).suggestionsOf .medium =
      ((namedNodes p).filter (isVarDeclaration p.source)).map (fun n => varAdvice n.startLine) ∧
    (report p).suggestionsOf .high =
      ((report p).functions.filter isTooComplex).map (fun f => functionAdvice f.name f.line) ∧
    (report p).suggestionsOf .critical =
      ((report p).loops.filter (·.isInfinite)).map fun l => loopAdvice l.line := by
  refine ⟨report_suggestions p, fun n => ⟨suggestions_length p.source n, fun x hx => ?_⟩, ?_, ?_,
    suggestionsOf_high p, suggestionsOf_critical p⟩
  · rw [suggestions_eq, List.mem_filterMap] at hx
    obtain ⟨s, -, hs⟩ := hx
    exact (advice?_spec hs).2
  · rw [suggestionsOf_eq]
    exact List.filterMap_eq_nil_iff.mpr fun n _ => rfl
  · rw [suggestionsOf_eq, ← filterMap_ite]
    rfl

/-- A variable that is reported on account of a declaration. -/
structure DeclaredBy (source : String) (s : Sited) (d : Node) (v : VariableInfo) : Prop where
  declaration : s.node.kind.isDeclaration = true
  declarator : d ∈ s.node.children ∧ d.kind = .variableDeclarator
  kind : v.kind = s.node.declarationWord source
  name : ∃ t, d.child? .name = some t ∧ v.name = t.text source
  line : v.line = d.startLine
  scope : v.scope = scopeTag s v.kind

/-- A variable that is reported on account of the head of a loop over keys or elements. -/
structure HeadOf (source : String) (s : Sited) (v : VariableInfo) : Prop where
  loop : s.node.kind = .forInStatement
  kind : ∃ k, s.node.child? .kind = some k ∧ v.kind = k.text source
  name : ∃ t, s.node.child? .left = some t ∧ v.name = t.text source ∧ v.line = t.startLine
  scope : v.scope = scopeTag s v.kind

variable {v : VariableInfo} {s : Sited}

/-- A declared variable comes from a declarator of its declaration. -/
theorem declaredBy_of_mem (hs : s.node.kind.isDeclaration = true)
    (h : v ∈ declaredVariables source s) : ∃ d, DeclaredBy source s d v := by
  obtain ⟨d, hd, hv⟩ := List.mem_filterMap.mp h
  split at hv
  · cases hv
  · split at hv
    · split at hv
      · cases hv
        exact ⟨d, hs, ⟨hd, by simp_all⟩, rfl, ⟨_, ‹_›, rfl⟩, rfl, rfl⟩
      · cases hv
    · cases hv

/-- A variable of a head comes from that head. -/
theorem headOf_of_mem (hs : s.node.kind = .forInStatement) (h : v ∈ headVariables source s) :
    HeadOf source s v := by
  unfold headVariables at h
  split at h
  · split at h
    · obtain rfl := List.mem_singleton.mp h
      exact ⟨hs, ⟨_, ‹_›, rfl⟩, ⟨_, ‹_›, rfl, rfl⟩, rfl⟩
    · cases h
  · cases h

/-- Variables are reported on account of declarations and of heads of loops. -/
theorem sited_of_mem_vars (hv : v ∈ (report p).vars) : ∃ s ∈ sited [] p.root, s.node.named = true ∧
    ((∃ d, DeclaredBy p.source s d v) ∨ HeadOf p.source s v) := by
  -- the report differs from what was found in whether the name is set anew
  obtain ⟨u, hu, rfl⟩ := List.mem_map.mp hv
  obtain ⟨s, hs, hu⟩ := List.mem_flatMap.mp hu
  obtain ⟨hs, hnamed⟩ := List.mem_filter.mp hs
  refine ⟨s, hs, hnamed, ?_⟩
  unfold variableInfos at hu
  split at hu
  · obtain ⟨d, h⟩ := declaredBy_of_mem ‹_› hu
    exact .inl ⟨d, h.declaration, h.declarator, h.kind, h.name, h.line, h.scope⟩
  · split at hu
    · rename_i hloop
      have h := headOf_of_mem (eq_of_beq hloop) hu
      exact .inr ⟨h.loop, h.kind, h.name, h.scope⟩
    · cases hu

/-- A variable of kind `var` stands in a declaration that there is a suggestion about on the line
where it begins, or it is the head of a loop over keys or elements, about which there is none. -/
theorem var_variables_are_advised (hv : v ∈ (report p).vars) (hvar : v.kind = "var") :
    ∃ s ∈ sited [] p.root,
      (∃ d, DeclaredBy p.source s d v) ∧ varAdvice s.node.startLine ∈ (report p).suggestions ∨
      HeadOf p.source s v ∧ suggestions p.source s.node = [] := by
  obtain ⟨s, hs, hnamed, ⟨d, h⟩ | h⟩ := sited_of_mem_vars hv
  · have hword : isVarDeclaration p.source s.node = true := by
      rw [isVarDeclaration, h.declaration, ← h.kind, hvar]
      rfl
    have hnode : s.node ∈ namedNodes p := by
      rw [namedNodes, ← named_sited]
      exact List.mem_map_of_mem (List.mem_filter.mpr ⟨hs, hnamed⟩)
    refine ⟨s, hs, .inl ⟨⟨d, h⟩, ?_⟩⟩
    rw [report_suggestions]
    refine List.mem_flatMap.mpr ⟨s.node, hnode, ?_⟩
    rw [suggestions_eq]
    exact List.mem_filterMap.mpr ⟨.medium, by simp [Severity.all], by rw [advice?, if_pos hword]⟩
  · refine ⟨s, hs, .inr ⟨h, ?_⟩⟩
    simp [suggestions, isInfiniteLoop, h.loop, Kind.isFunction, Kind.isDeclaration]

/-- The program `for (var x of []) ;`. -/
def varHead : Program :=
  { source := "for (var x of []) ;"
    root :=
      { kind := .program
        children :=
          [{ kind := .forInStatement
             children :=
              [{ kind := .token "var", named := false, field := some .kind, start := 5, stop := 8 },
                { kind := .identifier, field := some .left, start := 9, stop := 10 },
                { kind := .array, field := some .right },
                { kind := .emptyStatement, field := some .body }] }] } }

theorem varHead_is_not_advised :
    (report varHead).vars.map (fun v => (v.kind, v.name)) = [("var", "x")] ∧
      (report varHead).suggestions = [] :=
  ⟨by decide, rfl⟩

end Stepper.Analysis
