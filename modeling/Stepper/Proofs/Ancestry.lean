import Mathlib.Data.Fintype.Pigeonhole
import Mathlib.Tactic.Choose
import Stepper.Proofs.Depth
import Stepper.Proofs.Grounding.Program
import Stepper.Proofs.Narration

/-!
Chains of prototypes end. An object that is made has a prototype that was there before it, but for
one: an array that a program constructs is there when its prototype is asked for, and a getter that
is asked may make another object and give that. The array is out of reach meanwhile, so it is the
prototype of none. Nothing of this is checked when an object is made: it holds since a program can
only speak of objects that it has come by. Every walk along a chain that asks each object in turn
therefore ends, without a guard against cycles, and so do the four walks that the machine makes.
-/
namespace Stepper.Machine

open Syntax

variable {α β : Type}

namespace Heap

variable (h : Heap)

/-- The object so many links up from an object. -/
def ancestor : Nat → Ref → Option Ref
  | 0, r => some r
  | n + 1, r => (h.get r).proto.bind (ancestor n)

/-- A walk along a chain comes to an end, with the first answer or with another where nobody
answers. There is no bound to its length, and no walk that goes on for ever. -/
inductive Walks (ask : Ref → Option α) (otherwise : α) : Option Ref → α → Prop where
  | over : Walks ask otherwise none otherwise
  | answered {r : Ref} {a : α} (ha : ask r = some a) : Walks ask otherwise (some r) a
  | on {r : Ref} {a : α} (hnone : ask r = none) (hon : Walks ask otherwise (h.get r).proto a) :
      Walks ask otherwise (some r) a

/-- The chain of every object ends, and none comes back to its start; so each walk that asks the
objects of a chain in turn ends, with what the machine gives. -/
structure ChainsEnd : Prop where
  ends : ∀ r, ∃ n, h.ancestor n r = none
  acyclic : ∀ r n, h.ancestor (n + 1) r ≠ some r
  lookup : ∀ k r, h.Walks (h.askSlot k) none (some r) (h.lookup k r)
  hasProperty : ∀ k r, h.Walks (h.askOwn k) (.ok false) (some r) (h.hasProperty k r)
  inherits : ∀ p r, h.Walks (askSame p) false (h.get r).proto (h.inherits p r)
  isError : ∀ r, h.Walks h.askError false (some r) (h.isError r)

variable {h}

theorem ancestor_add (n m : Nat) (r : Ref) :
    h.ancestor (n + m) r = (h.ancestor n r).bind (h.ancestor m) := by
  induction n generalizing r with
  | zero => rw [Nat.zero_add]; rfl
  | succ n ih =>
    rw [Nat.succ_add, ancestor, ancestor, Option.bind_assoc]
    exact congrArg _ (funext ih)

theorem exists_ancestor_eq_none (hends : WellFounded h.IsProto) (r : Ref) :
    ∃ n, h.ancestor n r = none := by
  induction r using hends.induction with
  | _ r ih =>
    cases hp : (h.get r).proto with
    | none => exact ⟨1, by rw [ancestor, hp]; rfl⟩
    | some p =>
      obtain ⟨n, hn⟩ := ih p hp
      exact ⟨n + 1, by rw [ancestor, hp]; exact hn⟩

/-- A chain that comes back to its start comes back again and again. -/
theorem ancestor_mul_eq_self {r : Ref} {n : Nat} (hr : h.ancestor n r = some r) (k : Nat) :
    h.ancestor (n * k) r = some r := by
  induction k with
  | zero => rfl
  | succ k ih => rw [Nat.mul_succ, ancestor_add, ih]; exact hr

theorem ancestor_succ_ne_self (hends : ∀ r, ∃ n, h.ancestor n r = none) (r : Ref) (n : Nat) :
    h.ancestor (n + 1) r ≠ some r := by
  intro hr
  obtain ⟨m, hm⟩ := hends r
  have hlong : (n + 1) * m = m + n * m := by rw [Nat.succ_mul, Nat.add_comm]
  have hself := ancestor_mul_eq_self hr m
  rw [hlong, ancestor_add, hm] at hself
  cases hself

/-- No object stands at two places of a chain. -/
theorem ancestor_injective (hacyclic : ∀ r n, h.ancestor (n + 1) r ≠ some r) {r q : Ref} {i j : Nat}
    (hi : h.ancestor i r = some q) (hj : h.ancestor j r = some q) : i = j := by
  rcases Nat.lt_trichotomy i j with hlt | heq | hlt
  · obtain ⟨d, rfl⟩ := Nat.exists_eq_add_of_lt hlt
    rw [Nat.add_assoc, ancestor_add, hi] at hj
    exact absurd hj (hacyclic q d)
  · exact heq
  · obtain ⟨d, rfl⟩ := Nat.exists_eq_add_of_lt hlt
    rw [Nat.add_assoc, ancestor_add, hj] at hi
    exact absurd hi (hacyclic q d)

/-- Whoever has a prototype is there. -/
theorem lt_size_of_proto {r p : Ref} (hp : (h.get r).proto = some p) :
    r.index < h.objects.size := by
  by_contra hr
  rw [get, Array.getD_eq_getD_getElem?, Array.getElem?_eq_none (Nat.not_lt.mp hr)] at hp
  cases hp

/-- A chain has no more links than there are objects. -/
theorem ancestor_size_eq_none (hacyclic : ∀ r n, h.ancestor (n + 1) r ≠ some r) (r : Ref) :
    h.ancestor (h.objects.size + 1) r = none := by
  by_contra hlong
  obtain ⟨last, hlast⟩ := Option.ne_none_iff_exists'.mp hlong
  have hthere (i : Fin (h.objects.size + 1)) :
      ∃ q : Fin h.objects.size, h.ancestor i r = some ⟨q⟩ := by
    obtain ⟨d, hd⟩ := Nat.exists_eq_add_of_lt i.isLt
    rw [hd, Nat.add_assoc, ancestor_add] at hlast
    cases hq : h.ancestor i r with
    | none => rw [hq] at hlast; cases hlast
    | some q =>
      rw [hq, Option.bind_some, ancestor, Option.bind_eq_some_iff] at hlast
      obtain ⟨p, hp, -⟩ := hlast
      exact ⟨⟨q.index, lt_size_of_proto hp⟩, rfl⟩
  choose place hplace using hthere
  obtain ⟨i, j, hne, hsame⟩ := Fintype.exists_ne_map_eq_of_card_lt place (by simp)
  refine hne (Fin.ext (ancestor_injective hacyclic (hplace i) ?_))
  rw [hsame]
  exact hplace j

theorem walks_climb (ask : Ref → Option α) (otherwise : α) {n : Nat} {r : Ref}
    (hr : h.ancestor n r = none) : h.Walks ask otherwise (some r) (h.climb ask otherwise n (some r)) := by
  induction n generalizing r with
  | zero => cases hr
  | succ n ih =>
    rw [climb]
    cases ha : ask r with
    | some a => exact .answered ha
    | none =>
      refine .on ha ?_
      cases hp : (h.get r).proto with
      | none =>
        rw [climb_none]
        exact .over
      | some p =>
        rw [ancestor, hp] at hr
        exact ih hr

theorem chainsEnd (hends : WellFounded h.IsProto) : h.ChainsEnd := by
  have hnone := exists_ancestor_eq_none hends
  have hacyclic := ancestor_succ_ne_self hnone
  have hwalks {α : Type} (ask : Ref → Option α) (otherwise : α) (r : Ref) :
      h.Walks ask otherwise (some r) (h.walk ask otherwise (some r)) :=
    walks_climb ask otherwise (ancestor_size_eq_none hacyclic r)
  refine ⟨hnone, hacyclic, fun k r => hwalks _ _ r, fun k r => hwalks _ _ r, fun p r => ?_,
    fun r => hwalks _ _ r⟩
  rw [inherits]
  cases (h.get r).proto with
  | none => exact .over
  | some q => exact hwalks _ _ q

end Heap

namespace Course

theorem Grounded.tellingEnd [Refers α] {n : Horizon} {x : Course α} (hx : x.Grounded n) :
    x.tellingEnd.Grounded n := by
  induction x with
  | done a w => exact ⟨hx.2.1, fun _ => hx⟩
  | broke i w => exact ⟨hx.2.1, fun _ => hx⟩
  | tell c w next ih => exact ⟨hx.1, fun r => ih r (hx.2 r)⟩

theorem grounded_telling [Refers α] {n : Horizon} {x : World → Course α} {w : World}
    (hw : w.Grounded n.hidden) (hx : (x w).Grounded n) : (telling x w).Grounded n :=
  ⟨hw, fun _ => hx.tellingEnd⟩

theorem Grounded.through [Refers α] {n : Horizon} {x : Course α} (hx : x.Grounded n) :
    x.Through (·.heap.ChainsEnd) (·.heap.ChainsEnd) := by
  induction x with
  | done a w => exact Heap.chainsEnd hx.2.1.ends
  | broke i w => exact Heap.chainsEnd hx.2.1.ends
  | tell c w next ih => exact ⟨Heap.chainsEnd hx.1.ends, fun r => ih r (hx.2 r)⟩

/-- What holds of all that is told holds of what is told without a narration. -/
theorem Narrates.through {told ended : World → Prop} {x y : Course α} (h : x.Narrates y)
    (hy : y.Through told ended) : x.Through told ended := by
  induction h with
  | done a w => exact hy
  | broke i w => exact hy
  | tell c w h ih => exact ⟨hy.1, fun r => ih r (hy.2 r)⟩
  | aside w h ih => exact ih .proceed (hy.2 .proceed)

end Course

theorem Evaluator.Grounded.narrated {k : Horizon} {m : Evaluator} (hm : m.Grounded k) :
    m.narrated.Grounded k where
  eval n e isHead l w h hw := Course.grounded_telling hw (hm.eval n e isHead l w h hw)
  exec n e labels l w h hw := Course.grounded_telling hw (hm.exec n e labels l w h hw)
  bind n v e mode l w h hw hv := Course.grounded_telling hw (hm.bind n v e mode l w h hw hv)
  call f this args l w h hw hf hthis hargs :=
    Course.grounded_telling hw (hm.call f this args l w h hw hf hthis hargs)
  construct f args newTarget l w h hw hf hargs hnew :=
    Course.grounded_telling hw (hm.construct f args newTarget l w h hw hf hargs hnew)

end Stepper.Machine

namespace Stepper.Execution

open Syntax Machine Builtin

theorem narratedEvaluator_grounded (source : String) (wantsText : Bool) (levels : Nat) :
    (narratedEvaluator source wantsText levels).Grounded (initialWorld.horizon []) := by
  induction levels with
  | zero => exact (exhausted_grounded _).narrated
  | succ levels ih => exact (evaluatorIn_grounded ⟨known_realm_setting, ih⟩).narrated

theorem narratedContext_grounded (source : String) (wantsText : Bool) :
    (narratedContext source wantsText).Grounded (initialWorld.horizon []) :=
  ⟨known_realm_setting, narratedEvaluator_grounded source wantsText maxLevels⟩

theorem narratedCourse_grounded (p : Program) (wantsText : Bool) :
    (narratedCourse p wantsText).Grounded (initialWorld.horizon []) := by
  have hcontext := narratedContext_grounded p.source wantsText
  have hcourse := grounded_program (.refl _) p.root _ [] _ (.refl _) hcontext initialWorld_grounded
  refine hcourse.attempt.bind fun r w hw hgrounded hr => ?_
  cases r with
  | ok u => exact ⟨hw, hgrounded, hr⟩
  | error i =>
    cases i with
    | thrown v =>
      have hx := Action.grounded_thrownDetails hr _ [] w (.refl _) (hcontext.mono (.of_le hw))
        hgrounded
      refine Course.Grounded.mono (j := w.size) (hx.bind fun _ u hu hgrounded _ => ?_) hw
      exact ⟨hu, hgrounded, hr.mono (.of_le hu)⟩
    | _ => exact ⟨hw, hgrounded, hr⟩

/-- The chain of prototypes of every object ends, and so does every walk along it, in all the states
of a run: in those that the host is told of, whatever it replies, in the last one, and at every
level in those that an evaluation begins and ends in. -/
theorem prototype_chains_end (p : Program) (wantsText : Bool) :
    (describedCourse p wantsText).Through (·.heap.ChainsEnd) (·.heap.ChainsEnd) ∧
    (describedCourse p wantsText).Narrates (narratedCourse p wantsText) ∧
    (narratedCourse p wantsText).Through (·.heap.ChainsEnd) (·.heap.ChainsEnd) := by
  have hnarrates := describedCourse_narrates p wantsText
  have hthrough := (narratedCourse_grounded p wantsText).through
  exact ⟨hnarrates.through hthrough, hnarrates, hthrough⟩

end Stepper.Execution
