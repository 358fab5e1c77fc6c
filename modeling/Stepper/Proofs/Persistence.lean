import Stepper.Proofs.Composition.Law

/-!
Nothing is taken back in the whole of a run. That the states of a course evolve from each other is a
law, so it holds of every program: whatever a single operation keeps is kept by all that is run from
there on. With it goes a way to speak of the states in which a course comes to a value.
-/
namespace Stepper.Machine

variable {α β σ : Type}

theorem World.evolves_depth (w : World) (depth : Nat) : w.Evolves { w with depth } :=
  ⟨.refl w.heap, .refl w.scopes⟩

namespace Course

/-- The states that the course comes through evolve from this one, each from those before it. -/
def Evolves (w : World) : Course α → Prop
  | .done _ v => w.Evolves v
  | .broke _ v => w.Evolves v
  | .tell _ v next => w.Evolves v ∧ ∀ r, (next r).Evolves v

theorem Evolves.since {u w : World} {x : Course α} (hx : x.Evolves w) (hw : u.Evolves w) :
    x.Evolves u := by
  cases x with
  | done a v => exact hw.trans hx
  | broke i v => exact hw.trans hx
  | tell c v next => exact ⟨hw.trans hx.1, hx.2⟩

theorem evolves_course {w : World} {x : Outcome α} (h : w.Evolves x.world) :
    x.course.Evolves w := by
  cases x <;> exact h

theorem Evolves.bind {w : World} {x : Course α} {f : α → World → Course β} (hx : x.Evolves w)
    (hf : ∀ a v, (f a v).Evolves v) : (x.bind f).Evolves w := by
  induction x generalizing w with
  | done a v => exact (hf a v).since hx
  | broke i v => exact hx
  | tell c v next ih => exact ⟨hx.1, fun r => ih r (hx.2 r)⟩

theorem Evolves.attempt {w : World} {x : Course α} (hx : x.Evolves w) : x.attempt.Evolves w := by
  induction x generalizing w with
  | done a v => exact hx
  | broke i v => exact hx
  | tell c v next ih => exact ⟨hx.1, fun r => ih r (hx.2 r)⟩

theorem Evolves.handle {w : World} {x : Course α} {f : Except Interrupt α → World → Course β}
    (hx : x.Evolves w) (hf : ∀ r, r ≠ .error .stopped → ∀ v, (f r v).Evolves v)
    (hpass : ∀ v, f (.error .stopped) v = .broke .stopped v) : (x.attempt.bind f).Evolves w := by
  refine hx.attempt.bind fun r v => ?_
  by_cases hr : r = .error .stopped
  · rw [hr, hpass]
    exact .refl v
  · exact hf r hr v

theorem Evolves.mapWorld {w : World} {x : Course α} (hx : x.Evolves w) {f : World → World}
    (hf : ∀ v : World, v.Evolves (f v)) : (x.mapWorld f).Evolves w := by
  induction x generalizing w with
  | done a v => exact hx.trans (hf v)
  | broke i v => exact hx.trans (hf v)
  | tell c v next ih => exact ⟨hx.1, fun r => ih r (hx.2 r)⟩

theorem evolves_law : Law fun w x => x.Evolves w where
  atOnce _ h := evolves_course h.toEvolves
  tell f c w := ⟨.refl w, fun r => by cases r <;> exact .refl w⟩
  bind := .bind
  handle := .handle
  deeper hx w := ((hx _).since (w.evolves_depth _)).mapWorld fun v => v.evolves_depth _

/-- Whatever the host replies, the state that a course ends in evolves from the one it begins in. -/
theorem Evolves.drive {w : World} {x : Course α} (hx : x.Evolves w) (h : Host σ) (s : σ) :
    w.Evolves (x.drive h s).1.world := by
  induction x generalizing w s with
  | done a v => exact hx
  | broke i v => exact hx
  | tell c v next ih => exact hx.1.trans (ih _ (hx.2 _) _)

/-- What is left of a course when the host has made some replies. -/
inductive Rest : Course α → Course α → Prop where
  | refl (x : Course α) : x.Rest x
  | tell {c : Call} {w : World} {next : Reply → Course α} {y : Course α} (r : Reply)
      (h : (next r).Rest y) : (Course.tell c w next).Rest y

theorem Evolves.rest {w : World} {x y : Course α} (hx : x.Evolves w) (h : x.Rest y) :
    y.Evolves w := by
  induction h with
  | refl x => exact hx
  | tell r h ih => exact ih ((hx.2 r).since hx.1)

/-- Something that holds wherever the course comes to a value. -/
def Ends (Q : α → World → Prop) : Course α → Prop
  | .done a v => Q a v
  | .broke _ _ => True
  | .tell _ _ next => ∀ r, (next r).Ends Q

theorem Ends.imp {Q R : α → World → Prop} {x : Course α} (hx : x.Ends Q)
    (h : ∀ a v, Q a v → R a v) : x.Ends R := by
  induction x with
  | done a v => exact h a v hx
  | broke i v => trivial
  | tell c v next ih => exact fun r => ih r (hx r)

theorem ends_of_forall {Q : α → World → Prop} (h : ∀ a v, Q a v) (x : Course α) : x.Ends Q := by
  induction x with
  | done a v => exact h a v
  | broke i v => trivial
  | tell c v next ih => exact fun r => ih r

theorem Ends.and {Q R : α → World → Prop} {x : Course α} (hx : x.Ends Q) (hy : x.Ends R) :
    x.Ends fun a v => Q a v ∧ R a v := by
  induction x with
  | done a v => exact ⟨hx, hy⟩
  | broke i v => trivial
  | tell c v next ih => exact fun r => ih r (hx r) (hy r)

theorem Ends.bind {Q : α → World → Prop} {R : β → World → Prop} {x : Course α}
    {f : α → World → Course β} (hx : x.Ends Q) (hf : ∀ a v, Q a v → (f a v).Ends R) :
    (x.bind f).Ends R := by
  induction x with
  | done a v => exact hf a v hx
  | broke i v => trivial
  | tell c v next ih => exact fun r => ih r (hx r)

/-- What comes next may be exchanged for what is the same wherever the course comes to a value. -/
theorem Ends.bind_congr {Q : α → World → Prop} {x : Course α} (hx : x.Ends Q)
    {f g : α → World → Course β} (hfg : ∀ a v, Q a v → f a v = g a v) : x.bind f = x.bind g := by
  induction x with
  | done a v => exact hfg a v hx
  | broke i v => rfl
  | tell c v next ih => exact congrArg (Course.tell c v) (funext fun r => ih r (hx r))

theorem Evolves.ends {w : World} {x : Course α} (hx : x.Evolves w) :
    x.Ends fun _ v => w.Evolves v := by
  induction x generalizing w with
  | done a v => exact hx
  | broke i v => trivial
  | tell c v next ih => exact fun r => (ih r (hx.2 r)).imp fun _ _ => hx.1.trans

theorem Ends.drive {Q : α → World → Prop} {x : Course α} (hx : x.Ends Q) (h : Host σ) {s t : σ}
    {a : α} {v : World} (hdrive : x.drive h s = (.done a v, t)) : Q a v := by
  induction x generalizing s with
  | done b w => cases hdrive; exact hx
  | broke i w => cases hdrive
  | tell c w next ih => exact ih _ (hx _) hdrive

end Course

namespace Action

/-- An action in a context where nothing is taken back. -/
theorem Composed.evolves {x : Action α} (hx : x.Composed .all {}) {c : Context}
    (hc : c.inner.Obeys fun w x => x.Evolves w) (w : World) : (x c w).Evolves w :=
  hx.obeys Course.evolves_law c hc w

theorem each_evolves {f : α → Action Unit} {c : Context} (hf : ∀ a w, (f a c w).Evolves w)
    (as : List α) (w : World) : (each f as c w).Evolves w := by
  induction as generalizing w with
  | nil => exact .refl w
  | cons a as ih =>
    rw [each_cons]
    exact (hf a w).bind fun _ v => ih v

/-- To do one thing or the other for each of several things is the same, if it is in all the states
that come up. -/
theorem each_congr {f g : α → Action Unit} {c : Context} {I : World → Prop}
    (hI : ∀ w v : World, w.Evolves v → I w → I v) (hf : ∀ a w, (f a c w).Evolves w)
    (hfg : ∀ a w, I w → f a c w = g a c w) (as : List α) {w : World} (hw : I w) :
    each f as c w = each g as c w := by
  induction as generalizing w with
  | nil => rfl
  | cons a as ih =>
    rw [each_cons, each_cons]
    calc (f a c w).bind (fun _ v => each f as c v)
        = (f a c w).bind fun _ v => each g as c v :=
          (hf a w).ends.bind_congr fun _ v hv => ih (hI w v hv hw)
      _ = (g a c w).bind fun _ v => each g as c v := by rw [hfg a w hw]

/-- What is done for each of several things in turn has been done for all of them in the end, if
nothing that comes later takes it back. -/
theorem each_ends {f : α → Action Unit} {c : Context} {I : World → Prop} {Q : α → World → Prop}
    (hI : ∀ w v : World, w.Evolves v → I w → I v)
    (hQ : ∀ a (w v : World), w.Evolves v → Q a w → Q a v)
    (hf : ∀ a w, (f a c w).Evolves w) (hends : ∀ a w, I w → (f a c w).Ends fun _ v => Q a v)
    (as : List α) {w : World} (hw : I w) : (each f as c w).Ends fun _ v => ∀ a ∈ as, Q a v := by
  induction as generalizing w with
  | nil => exact fun a ha => absurd ha List.not_mem_nil
  | cons a as ih =>
    rw [each_cons]
    have hfirst : (f a c w).Ends fun _ v => w.Evolves v ∧ Q a v :=
      (hf a w).ends.and (hends a w hw)
    refine hfirst.bind fun _ v hv => ?_
    refine ((each_evolves hf as v).ends.and (ih (hI w v hv.1 hw))).imp fun _ u hu => ?_
    exact List.forall_mem_cons.2 ⟨hQ a v u hu.1 hv.2, hu.2⟩

end Action
end Stepper.Machine

namespace Stepper.Execution

open Syntax Machine

theorem evaluator_evolves (source : String) (wantsText : Bool) (levels : Nat) :
    (evaluator source wantsText levels).Obeys fun w x => x.Evolves w :=
  evaluator_obeys Course.evolves_law source wantsText levels

/-- No program takes anything back. -/
theorem course_evolves (p : Program) (wantsText : Bool) :
    (course p wantsText).Evolves initialWorld :=
  course_obeys Course.evolves_law p wantsText

end Stepper.Execution
