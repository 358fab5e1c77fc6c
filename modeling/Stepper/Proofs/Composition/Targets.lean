import Stepper.Machine.Statement
import Stepper.Syntax.Tree

/-!
Where the signals of a program lead. A `break`, a `continue` or a `return` leaves what it stands in
up to its target: a loop, a switch, a statement with a label, a function. A node is confined where
certain targets are around it if every signal written in it has one of them, or one that stands
inside the node, as its target, and none reaches over the border of a function or a static block.
-/
namespace Stepper.Machine

open Syntax

/-- By which a statement leaves what it stands in. -/
def Interrupt.IsSignal : Interrupt → Prop
  | .returned _ | .left _ | .continued _ => True
  | _ => False

instance (i : Interrupt) : Decidable i.IsSignal :=
  match i with
  | .returned _ | .left _ | .continued _ => .isTrue trivial
  | .thrown _ | .raised _ _ | .cutShort | .stopped | .refused | .fault _ => .isFalse id

/-- What is around a node for signals to lead to. -/
structure Targets where
  /-- Whether there is a function. -/
  returns : Bool := false
  /-- Whether there is a loop or a switch. -/
  breaks : Bool := false
  /-- Whether there is a loop. -/
  continues : Bool := false
  /-- The labels of statements. -/
  labels : List String := []
  /-- The labels of loops. -/
  loops : List String := []

namespace Targets

/-- Everything but a signal without a target. -/
def Admits (t : Targets) : Interrupt → Prop
  | .returned _ => t.returns = true
  | .left none => t.breaks = true
  | .left (some l) => l ∈ t.labels
  | .continued none => t.continues = true
  | .continued (some l) => l ∈ t.loops
  | _ => True

instance : LE Targets := ⟨fun t u => ∀ i, t.Admits i → u.Admits i⟩

variable {t : Targets} {i : Interrupt}

@[simp] protected theorem le_refl (t : Targets) : t ≤ t := fun _ h => h

theorem admits_of_not_isSignal (h : ¬ i.IsSignal) : t.Admits i := by
  cases i with
  | returned v => exact absurd trivial h
  | left label => exact absurd trivial h
  | continued label => exact absurd trivial h
  | _ => trivial

/-- Without targets there are no signals. -/
theorem not_isSignal_of_admits_none (h : ({} : Targets).Admits i) : ¬ i.IsSignal := by
  cases i with
  | returned v => exact absurd h Bool.false_ne_true
  | left label =>
    cases label with
    | none => exact absurd h Bool.false_ne_true
    | some l => exact absurd h List.not_mem_nil
  | continued label =>
    cases label with
    | none => exact absurd h Bool.false_ne_true
    | some l => exact absurd h List.not_mem_nil
  | _ => exact id

@[simp] theorem none_le (t : Targets) : ({} : Targets) ≤ t :=
  fun _ h => admits_of_not_isSignal (not_isSignal_of_admits_none h)

/-- Where there is nothing but a function, it is left by a `return` alone. -/
theorem returned_of_admits (h : ({ returns := true } : Targets).Admits i) :
    (∃ v, i = .returned v) ∨ ¬ i.IsSignal := by
  cases i with
  | returned v => exact .inl ⟨v, rfl⟩
  | left label => exact .inr (not_isSignal_of_admits_none (by cases label <;> exact h))
  | continued label => exact .inr (not_isSignal_of_admits_none (by cases label <;> exact h))
  | _ => exact .inr id

/-- Whether a node is no signal or one that has its target around it. -/
def suits (source : String) (t : Targets) (n : Node) : Bool :=
  match n.kind with
  | .breakStatement =>
    match n.child? .label with
    | none => t.breaks
    | some l => t.labels.contains (l.text source)
  | .continueStatement =>
    match n.child? .label with
    | none => t.continues
    | some l => t.loops.contains (l.text source)
  | .returnStatement => t.returns
  | _ => true

section

variable {source : String} {n : Node} (h : t.suits source n = true)

include h

theorem admits_break (hkind : n.kind = .breakStatement) :
    t.Admits (.left ((n.child? .label).map (Node.text source))) := by
  simp only [suits, hkind] at h
  cases hl : n.child? .label with
  | none =>
    rw [hl] at h
    exact h
  | some l =>
    rw [hl] at h
    exact List.contains_iff_mem.mp h

theorem admits_continue (hkind : n.kind = .continueStatement) :
    t.Admits (.continued ((n.child? .label).map (Node.text source))) := by
  simp only [suits, hkind] at h
  cases hl : n.child? .label with
  | none =>
    rw [hl] at h
    exact h
  | some l =>
    rw [hl] at h
    exact List.contains_iff_mem.mp h

theorem admits_return (hkind : n.kind = .returnStatement) (v : Value) : t.Admits (.returned v) := by
  simp only [suits, hkind] at h
  exact h

end

/-- The targets around what is inside a loop with these labels. -/
def insideLoop (t : Targets) (labels : List String) : Targets :=
  { t with
    breaks := true, continues := true, labels := labels ++ t.labels, loops := labels ++ t.loops }

/-- The targets around what is inside a switch with these labels. -/
def insideSwitch (t : Targets) (labels : List String) : Targets :=
  { t with breaks := true, labels := labels ++ t.labels }

/-- The targets around a statement with these labels. -/
def labeled (t : Targets) (labels : List String) : Targets :=
  { t with labels := labels ++ t.labels }

theorem not_mem_of_owns {labels : List String} {l : String}
    (h : Action.owns labels (some l) = false) : l ∉ labels := by simpa [Action.owns] using h

/-- Only a signal to the loop itself needs the loop around it. -/
theorem admits_of_insideLoop {labels : List String} (h : (t.insideLoop labels).Admits i)
    (hleft : ∀ l, i = .left l → Action.owns labels l = false)
    (hcontinued : ∀ l, i = .continued l → Action.owns labels l = false) : t.Admits i := by
  cases i with
  | left label =>
    cases label with
    | none => exact absurd (hleft none rfl) Bool.true_eq_false.mp
    | some l => exact (List.mem_append.mp h).resolve_left (not_mem_of_owns (hleft _ rfl))
  | continued label =>
    cases label with
    | none => exact absurd (hcontinued none rfl) Bool.true_eq_false.mp
    | some l => exact (List.mem_append.mp h).resolve_left (not_mem_of_owns (hcontinued _ rfl))
  | _ => exact h

theorem admits_of_insideSwitch {labels : List String} (h : (t.insideSwitch labels).Admits i)
    (hleft : ∀ l, i = .left l → Action.owns labels l = false) : t.Admits i := by
  cases i with
  | left label =>
    cases label with
    | none => exact absurd (hleft none rfl) Bool.true_eq_false.mp
    | some l => exact (List.mem_append.mp h).resolve_left (not_mem_of_owns (hleft _ rfl))
  | continued label => cases label <;> exact h
  | _ => exact h

theorem admits_of_labeled {labels : List String} (h : (t.labeled labels).Admits i)
    (hleft : ∀ l, i = .left (some l) → l ∉ labels) : t.Admits i := by
  cases i with
  | left label =>
    cases label with
    | none => exact h
    | some l => exact (List.mem_append.mp h).resolve_left (hleft l rfl)
  | continued label => cases label <;> exact h
  | _ => exact h

/-- The labels before what a labeled statement holds, which stands behind some labels itself. -/
def labelsBefore (source : String) (labels : List String) (n : Node) : List String :=
  ((n.child? .label).map (Node.text source)).toList ++ labels

/-- The targets around a child of a node, and the labels that it takes over. A loop, a switch and a
labeled statement take over the labels before them; other statements are targets by theirs. -/
def ofChild (source : String) (t : Targets) (labels : List String) (n c : Node) :
    Targets × List String :=
  if n.kind.isFunction then ({ returns := true }, [])
  else if n.kind.isLoop then (t.insideLoop labels, [])
  else match n.kind with
    | .classStaticBlock => ({}, [])
    | .switchStatement => (t.insideSwitch labels, [])
    | .labeledStatement =>
      if Action.takesLabels c.kind then (t, labelsBefore source labels n)
      else (t.labeled (labelsBefore source labels n), [])
    | _ => (t, [])

/-- Whether a child is run through: its parent runs what is inside it. -/
def isClause (n c : Node) : Bool :=
  match n.kind, c.field with
  | .ifStatement, some .alternative => true
  | .tryStatement, some .handler => true
  | .tryStatement, some .finalizer => true
  | .switchStatement, some .body => true
  | _, _ => false

/-- Whether other targets are around what is inside a node than around the node. -/
def changes (k : Kind) : Bool := k.isFunction || k == .classStaticBlock || Action.takesLabels k

section

variable {source : String} {labels : List String} {n c : Node}

theorem ofChild_of_isFunction (h : n.kind.isFunction = true) :
    t.ofChild source labels n c = ({ returns := true }, []) := by
  simp [ofChild, h]

theorem ofChild_of_isLoop (h : n.kind.isLoop = true) :
    t.ofChild source labels n c = (t.insideLoop labels, []) := by
  have hfunction : n.kind.isFunction = false := by
    cases hkind : n.kind <;> simp_all [Kind.isLoop, Kind.isFunction]
  simp [ofChild, h, hfunction]

theorem ofChild_of_switch (h : n.kind = .switchStatement) :
    t.ofChild source labels n c = (t.insideSwitch labels, []) := by
  simp [ofChild, h, Kind.isFunction, Kind.isLoop]

theorem ofChild_of_labeled (h : n.kind = .labeledStatement) : t.ofChild source labels n c =
    if Action.takesLabels c.kind then (t, labelsBefore source labels n)
    else (t.labeled (labelsBefore source labels n), []) := by
  simp [ofChild, h, Kind.isFunction, Kind.isLoop]

theorem ofChild_of_not_changes (h : changes n.kind = false) :
    t.ofChild source labels n c = (t, []) := by
  simp only [changes, Action.takesLabels, Bool.or_eq_false_iff, beq_eq_false_iff_ne] at h
  obtain ⟨⟨hfunction, hblock⟩, ⟨hloop, hlabeled⟩, hswitch⟩ := h
  unfold ofChild
  rw [if_neg (by simp [hfunction]), if_neg (by simp [hloop])]
  split
  · exact absurd ‹_› hblock
  · exact absurd ‹_› hswitch
  · exact absurd ‹_› hlabeled
  · rfl

end

end Targets

end Stepper.Machine

namespace Stepper.Syntax

open Machine

namespace Node

mutual

/-- Whether every signal written in a node, which stands behind some labels, has a target. -/
def isConfined (source : String) (t : Targets) (labels : List String) (n : Node) : Bool :=
  match n with
  | ⟨a, b, c, d, e, f, g, h, i, j, cs⟩ =>
    t.suits source ⟨a, b, c, d, e, f, g, h, i, j, cs⟩ &&
      areConfined source t labels ⟨a, b, c, d, e, f, g, h, i, j, cs⟩ cs
termination_by structural n

/-- Whether that holds of some children of a node. A clause is itself no target: what it holds is
run as a part of the statement. -/
def areConfined (source : String) (t : Targets) (labels : List String) (parent : Node)
    (cs : List Node) : Bool :=
  match cs with
  | [] => true
  | c :: cs =>
    c.isConfined source (t.ofChild source labels parent c).1 (t.ofChild source labels parent c).2 &&
      (!(Targets.isClause parent c && Targets.changes c.kind) ||
        c.holdsConfined source (t.ofChild source labels parent c).1) &&
      areConfined source t labels parent cs
termination_by structural cs

/-- Whether what a node holds is confined where the node stands. -/
def holdsConfined (source : String) (t : Targets) (n : Node) : Bool :=
  match n with
  | ⟨_, _, _, _, _, _, _, _, _, _, cs⟩ => allConfined source t cs
termination_by structural n

def allConfined (source : String) (t : Targets) (cs : List Node) : Bool :=
  match cs with
  | [] => true
  | c :: cs => c.isConfined source t [] && allConfined source t cs
termination_by structural cs

end

variable {source : String} {t : Targets} {labels : List String} {n : Node}

theorem holdsConfined_iff :
    n.holdsConfined source t = true ↔ ∀ c ∈ n.children, c.isConfined source t [] = true := by
  have hall (cs : List Node) :
      allConfined source t cs = true ↔ ∀ c ∈ cs, c.isConfined source t [] = true := by
    induction cs with
    | nil => simp [allConfined]
    | cons c cs ih => simp [allConfined, ih]
  cases n
  rw [holdsConfined, hall]

theorem areConfined_iff {parent : Node} {cs : List Node} :
    areConfined source t labels parent cs = true ↔ ∀ c ∈ cs,
      c.isConfined source (t.ofChild source labels parent c).1
        (t.ofChild source labels parent c).2 = true ∧
      (Targets.isClause parent c = true → Targets.changes c.kind = true →
        c.holdsConfined source (t.ofChild source labels parent c).1 = true) := by
  have hguard (a b x : Bool) : (!(a && b) || x) = true ↔ (a = true → b = true → x = true) := by
    cases a <;> cases b <;> simp
  induction cs with
  | nil => simp [areConfined]
  | cons c cs ih =>
    simp only [areConfined, Bool.and_eq_true, hguard, ih, List.forall_mem_cons]

/-- A node is confined if it has its target itself and all that it holds is confined. -/
theorem isConfined_iff : n.isConfined source t labels = true ↔ t.suits source n = true ∧
    ∀ c ∈ n.children,
      c.isConfined source (t.ofChild source labels n c).1 (t.ofChild source labels n c).2 = true ∧
      (Targets.isClause n c = true → Targets.changes c.kind = true →
        c.holdsConfined source (t.ofChild source labels n c).1 = true) := by
  cases n
  rw [isConfined, Bool.and_eq_true, areConfined_iff]

end Node

/-- Whether every signal written in a program has a target. -/
def Program.isConfined (p : Program) : Bool := p.root.holdsConfined p.source {}

end Stepper.Syntax
