import Stepper.Execution.Run
import Stepper.Proofs.Composition.Basic

/-!
Chains of accesses and calls with optional links. Where what an optional link is on is null or
undefined, nothing of the chain is evaluated after that: the chain is undefined, and the program and
the host are as that has left them. What cuts a chain short does not leave it. But `delete` takes
its operand for the head of a longer chain, and so does a target for what it is a property of: they
let the cut out, to whatever chain is around.
-/
namespace Stepper.Machine

open Syntax

variable {α β σ : Type}

namespace Course

/-- Goes on from another course, but is cut short where that comes to null or undefined. -/
def CutAfter (base : Course (Value × Value)) (x : Course α) : Prop :=
  ∃ rest : Value × Value → World → Course α,
    x = base.bind fun p w => if p.1.isNullish then .broke .cutShort w else rest p w

theorem CutAfter.bind {base : Course (Value × Value)} {x : Course α} (hx : base.CutAfter x)
    (f : α → World → Course β) : base.CutAfter (x.bind f) := by
  obtain ⟨rest, rfl⟩ := hx
  refine ⟨fun p w => (rest p w).bind f, ?_⟩
  rw [bind_assoc]
  congr 1
  funext p w
  split <;> rfl

theorem CutAfter.drive {base : Course (Value × Value)} {x : Course α} (hx : base.CutAfter x)
    {h : Host σ} {s s' : σ} {p : Value × Value} {w : World}
    (hbase : base.drive h s = (.done p w, s')) (hp : p.1.isNullish = true) :
    x.drive h s = (.broke .cutShort w, s') := by
  obtain ⟨rest, rfl⟩ := hx
  rw [drive_bind_of_done hbase, if_pos hp]
  rfl

end Course

namespace Action

open Course

def isLink : Kind → Bool
  | .memberExpression | .subscriptExpression | .callExpression => true
  | _ => false

/-- What a link is on; for a call, the function and what that is called on. -/
def linkBase (n : Node) (e : ScopeRef) : Action (Value × Value) :=
  if n.kind = .callExpression then do evalCallee (← part (n.child? .function)) e
  else do return (← memberObject n e, .undefined)

/-- Whether a link may cut its chain short: it is written with `?.`, and calls no `super`. -/
def mayCut (n : Node) : Bool :=
  isOptional n && !(n.kind == .callExpression && (n.child? .function).any (·.kind == .superWord))

/-- The link `m` belongs to the chain of `n`, and is evaluated in the context `d` when the chain is
evaluated in `c`. -/
inductive Continues : Context → Node → Context → Node → Prop where
  | self {c : Context} {n : Node} : Continues c n c n
  /-- By what a member access is on, which is nested in it. -/
  | object {c c₁ d : Context} {n o m : Node} (hn : n.kind ≠ .callExpression)
      (ho : n.child? .object = some o) (hlink : isLink o.kind = true)
      (hc : c.inner = Execution.evaluatorIn c₁) (h : Continues c₁ o d m) : Continues c n d m
  /-- By the member access that finds the function of a call and what it is called on. -/
  | method {c d : Context} {n f m : Node} (hn : n.kind = .callExpression)
      (hf : n.child? .function = some f) (hlink : isLink f.kind = true)
      (hkind : f.kind ≠ .callExpression) (h : Continues c f d m) : Continues c n d m
  /-- By the call that gives the function of a call, which is nested in it. -/
  | called {c c₁ d : Context} {n f m : Node} (hn : n.kind = .callExpression)
      (hf : n.child? .function = some f) (hkind : f.kind = .callExpression)
      (hc : c.inner = Execution.evaluatorIn c₁) (h : Continues c₁ f d m) : Continues c n d m

variable {n m o f : Node} {e : ScopeRef} {c c₁ d : Context} {w : World}

theorem ne_super_of_isLink (hlink : isLink n.kind = true) : (n.kind == .superWord) = false := by
  cases hkind : n.kind <;> simp_all [isLink]

theorem evaluate_link (hlink : isLink n.kind = true) (isHead : Bool) :
    evaluate n e isHead = evalChain n e isHead := by
  unfold evaluate
  cases hkind : n.kind <;> simp_all [isLink]

theorem evalHead_link (hlink : isLink n.kind = true) (hc : c.inner = Execution.evaluatorIn c₁) :
    evalHead n e c w = evalLink n e c₁ w := by
  change c.inner.eval n e true w = _
  rw [hc]
  exact congrFun (congrFun (evaluate_link hlink true) c₁) w

theorem memberObject_of_child (ho : n.child? .object = some o)
    (hsuper : (o.kind == .superWord) = false) : memberObject n e = evalHead o e := by
  unfold memberObject
  rw [ho]
  change (if (o.kind == .superWord) = true then this e else evalHead o e) = _
  rw [hsuper]
  rfl

theorem cutAfter_bind (b : Action (Value × Value)) {f : Value × Value → Action β}
    (hf : ∀ p c w, p.1.isNullish = true → f p c w = .broke .cutShort w) :
    (b c w).CutAfter ((b >>= f) c w) := by
  refine ⟨fun p => f p c, congrArg (b c w).bind ?_⟩
  funext p w
  by_cases hp : p.1.isNullish = true
  · rw [if_pos hp]
    exact hf p c w hp
  · rw [if_neg hp]

theorem memberTarget_cut (hcall : n.kind ≠ .callExpression) (hcut : mayCut n = true) :
    (linkBase n e c w).CutAfter (memberTarget n e c w) := by
  have hopt : isOptional n = true := (Bool.and_eq_true_iff.1 hcut).1
  have htarget : memberTarget n e = linkBase n e >>= fun p => do
      if p.1.isNullish && isOptional n then interrupt .cutShort
      return (p.1, ← memberKey n e) := by
    unfold memberTarget linkBase
    rw [if_neg hcall, bind_assoc]
    rfl
  rw [htarget]
  refine cutAfter_bind _ fun p c w hp => ?_
  simp only [hopt, hp]
  rfl

theorem evalCall_cut (hcall : n.kind = .callExpression) (hcut : mayCut n = true) :
    (linkBase n e c w).CutAfter (evalCall n e c w) := by
  obtain ⟨hopt, hsuper⟩ := Bool.and_eq_true_iff.1 hcut
  unfold linkBase evalCall
  rw [if_pos hcall, hopt]
  cases hf : n.child? .function with
  | none => exact ⟨fun _ w => .broke (.fault .wrongKind) w, rfl⟩
  | some f =>
    have hsuper : (f.kind == .superWord) = false := by
      rw [hcall, hf] at hsuper
      simpa using hsuper
    change (evalCallee f e c w).CutAfter
      ((if (f.kind == .superWord) = true then _ else _ : Action Value) c w)
    rw [hsuper]
    refine cutAfter_bind _ fun p c w hp => ?_
    simp only [hp]
    rfl

variable {base : Course (Value × Value)}

theorem evalLink_cut (hmember : n.kind ≠ .callExpression → base.CutAfter (memberTarget n e c w))
    (hcall : n.kind = .callExpression → base.CutAfter (evalCall n e c w)) :
    base.CutAfter (evalLink n e c w) := by
  unfold evalLink
  by_cases hkind : n.kind = .callExpression
  · simp only [hkind]
    exact hcall hkind
  · rw [if_neg (mt beq_iff_eq.1 hkind)]
    exact (hmember hkind).bind _

/-- A member access goes on from what it is on, and a call from the function it calls. -/
theorem memberTarget_of_object (ho : n.child? .object = some o) (hlink : isLink o.kind = true)
    (hc : c.inner = Execution.evaluatorIn c₁) (h : base.CutAfter (evalLink o e c₁ w)) :
    base.CutAfter (memberTarget n e c w) := by
  unfold memberTarget
  rw [memberObject_of_child ho (ne_super_of_isLink hlink)]
  change base.CutAfter ((evalHead o e c w).bind _)
  rw [evalHead_link hlink hc]
  exact h.bind _

theorem evalCall_of_callee (hf : n.child? .function = some f) (hlink : isLink f.kind = true)
    (h : base.CutAfter (evalCallee f e c w)) : base.CutAfter (evalCall n e c w) := by
  unfold evalCall
  rw [hf]
  change base.CutAfter ((if (f.kind == .superWord) = true then _ else _ : Action Value) c w)
  rw [ne_super_of_isLink hlink]
  exact h.bind _

theorem evalCallee_of_member (hlink : isLink f.kind = true) (hkind : f.kind ≠ .callExpression)
    (h : base.CutAfter (memberTarget f e c w)) : base.CutAfter (evalCallee f e c w) := by
  unfold evalCallee
  cases hf : f.kind <;> simp_all [isLink]
  · exact h.bind _
  · exact h.bind _

theorem evalCallee_of_call (hkind : f.kind = .callExpression)
    (hc : c.inner = Execution.evaluatorIn c₁) (h : base.CutAfter (evalLink f e c₁ w)) :
    base.CutAfter (evalCallee f e c w) := by
  unfold evalCallee
  rw [hkind]
  change base.CutAfter ((evalHead f e c w).bind _)
  rw [evalHead_link (by rw [hkind]; rfl) hc]
  exact h.bind _

/-- By induction on the way from the outermost link to the one that cuts the chain short: at each
link of the way everything else of it comes later. -/
theorem Continues.cut (h : Continues c n d m) (hcut : mayCut m = true) :
    (n.kind ≠ .callExpression → (linkBase m e d w).CutAfter (memberTarget n e c w)) ∧
      (n.kind = .callExpression → (linkBase m e d w).CutAfter (evalCall n e c w)) := by
  induction h with
  | self => exact ⟨fun hkind => memberTarget_cut hkind hcut, fun hkind => evalCall_cut hkind hcut⟩
  | object hn ho hlink hc _ ih =>
    obtain ⟨hmember, hcall⟩ := ih hcut
    exact ⟨fun _ => memberTarget_of_object ho hlink hc (evalLink_cut hmember hcall),
      fun hkind => absurd hkind hn⟩
  | method hn hf hlink hkind _ ih =>
    refine ⟨fun hne => absurd hn hne, fun _ => ?_⟩
    exact evalCall_of_callee hf hlink (evalCallee_of_member hlink hkind ((ih hcut).1 hkind))
  | called hn hf hkind hc _ ih =>
    obtain ⟨hmember, hcall⟩ := ih hcut
    refine ⟨fun hne => absurd hn hne, fun _ => ?_⟩
    refine evalCall_of_callee hf (by rw [hkind]; rfl) ?_
    exact evalCallee_of_call hkind hc (evalLink_cut hmember hcall)

section

variable {h : Host σ} {s s' : σ} {w' : World} {p : Value × Value}

/-! A chain that is not the head of another one is what its outermost link is, but undefined where
that is cut short. -/

theorem drive_chain_of_done {v : Value} (hlink : isLink n.kind = true)
    (hx : (evalLink n e c w).drive h s = (.done v w', s')) :
    (evaluate n e false c w).drive h s = (.done v w', s') := by
  rw [evaluate_link hlink]
  exact drive_bind_of_done (drive_attempt_of_done hx) _

theorem drive_chain_of_cut (hlink : isLink n.kind = true)
    (hx : (evalLink n e c w).drive h s = (.broke .cutShort w', s')) :
    (evaluate n e false c w).drive h s = (.done .undefined w', s') := by
  rw [evaluate_link hlink]
  exact drive_bind_of_done (drive_attempt_of_broke hx) _

theorem drive_chain_of_broke {i : Interrupt} (hlink : isLink n.kind = true) (hi : i ≠ .cutShort)
    (hx : (evalLink n e c w).drive h s = (.broke i w', s')) :
    (evaluate n e false c w).drive h s = (.broke i w', s') := by
  rw [evaluate_link hlink]
  refine (drive_bind_of_done (drive_attempt_of_broke hx) _).trans ?_
  cases i with
  | cutShort => exact absurd rfl hi
  | _ => rfl

/-- Where what an optional link is on comes to null or undefined, the chain is undefined at once. -/
theorem chain_undefined (hm : Continues c n d m) (hlink : isLink n.kind = true)
    (hcut : mayCut m = true) (hbase : (linkBase m e d w).drive h s = (.done p w', s'))
    (hp : p.1.isNullish = true) :
    (evaluate n e false c w).drive h s = (.done .undefined w', s') := by
  obtain ⟨hmember, hcall⟩ := hm.cut (e := e) (w := w) hcut
  exact drive_chain_of_cut hlink ((evalLink_cut hmember hcall).drive hbase hp)

/-- What cuts a chain short does not leave it. -/
theorem chain_keeps_cut (hlink : isLink n.kind = true) :
    (evaluate n e false c w).drive h s ≠ (.broke .cutShort w', s') := by
  intro hcut
  rcases hx : (evalLink n e c w).drive h s with ⟨⟨v, v'⟩ | ⟨i, v'⟩, t⟩
  · rw [drive_chain_of_done hlink hx] at hcut
    cases hcut
  · by_cases hi : i = .cutShort
    · subst hi
      rw [drive_chain_of_cut hlink hx] at hcut
      cases hcut
    · rw [drive_chain_of_broke hlink hi hx] at hcut
      cases hcut
      exact hi rfl

/-- To delete a property is no link: what cuts the chain of its operand short leaves it. -/
theorem delete_cut (hm : Continues c n d m) (hlink : isLink n.kind = true)
    (hkind : n.kind ≠ .callExpression) (hcut : mayCut m = true)
    (hbase : (linkBase m e d w).drive h s = (.done p w', s')) (hp : p.1.isNullish = true) :
    (evalDelete n e c w).drive h s = (.broke .cutShort w', s') := by
  have htarget := (hm.cut (e := e) (w := w) hcut).1 hkind
  refine CutAfter.drive ?_ hbase hp
  unfold evalDelete
  cases hn : n.kind <;> simp_all [isLink]
  · exact htarget.bind _
  · exact htarget.bind _

/-- Nor is a target a link: what cuts the chain short that it is a property of leaves it. -/
theorem reference_cut (hkind : isLink n.unwrapParens.kind = true)
    (hcall : n.unwrapParens.kind ≠ .callExpression) (ho : n.unwrapParens.child? .object = some o)
    (hlink : isLink o.kind = true) (hc : c.inner = Execution.evaluatorIn c₁)
    (hm : Continues c₁ o d m) (hcut : mayCut m = true)
    (hbase : (linkBase m e d w).drive h s = (.done p w', s')) (hp : p.1.isNullish = true) :
    (reference n e c w).drive h s = (.broke .cutShort w', s') := by
  have hobject : (linkBase m e d w).CutAfter (memberObject n.unwrapParens e c w) := by
    obtain ⟨hmember, hcall⟩ := hm.cut (e := e) (w := w) hcut
    rw [memberObject_of_child ho (ne_super_of_isLink hlink), evalHead_link hlink hc]
    exact evalLink_cut hmember hcall
  refine CutAfter.drive ?_ hbase hp
  unfold reference
  generalize n.unwrapParens = n at *
  cases hn : n.kind <;> simp_all [isLink]
  · exact hobject.bind _
  · exact hobject.bind _

end

end Action
end Stepper.Machine
