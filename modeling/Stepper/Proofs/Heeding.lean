import Stepper.Proofs.Composition.Law

/-!
A stop is heeded at once. When the host answers a call with a stop, the program ends right there: it
tells the host nothing more, and leaves its objects and scopes as they were in that call. No handler
and no finalizer runs, since each of them would begin with a scope of its own. This is a law of
courses, so it holds of every program.
-/
namespace Stepper.Machine

open Syntax

variable {α β σ : Type}

namespace Course

/-- Whatever a course is told to stop at, it ends there, with the objects and scopes that it has. -/
def Heeds : Course α → Prop
  | .done _ _ => True
  | .broke _ _ => True
  | .tell _ w next =>
    (∃ v, next .stop = .broke .stopped v ∧ v.heap = w.heap ∧ v.scopes = w.scopes) ∧
      ∀ r, (next r).Heeds

theorem Heeds.bind {x : Course α} {f : α → World → Course β} (hx : x.Heeds)
    (hf : ∀ a w, (f a w).Heeds) : (x.bind f).Heeds := by
  induction x with
  | done a w => exact hf a w
  | broke i w => trivial
  | tell c w next ih =>
    obtain ⟨⟨v, hstop, hv⟩, hnext⟩ := hx
    exact ⟨⟨v, by simp [hstop], hv⟩, fun r => ih r (hnext r)⟩

/-- To look at what a course came to does no harm if a stop is let pass. -/
theorem Heeds.handle {x : Course α} {f : Except Interrupt α → World → Course β} (hx : x.Heeds)
    (hf : ∀ r, r ≠ .error .stopped → ∀ w, (f r w).Heeds)
    (hpass : ∀ w, f (.error .stopped) w = .broke .stopped w) : (x.attempt.bind f).Heeds := by
  induction x with
  | done a w => exact hf (.ok a) (by simp) w
  | broke i w =>
    change (f (.error i) w).Heeds
    by_cases hi : i = .stopped
    · rw [hi, hpass]
      trivial
    · exact hf (.error i) (by simpa using hi) w
  | tell c w next ih =>
    obtain ⟨⟨v, hstop, hv⟩, hnext⟩ := hx
    refine ⟨⟨v, ?_, hv⟩, fun r => ih r (hnext r)⟩
    change (next .stop).attempt.bind f = _
    rw [hstop]
    exact hpass v

theorem Heeds.mapWorld {x : Course α} (hx : x.Heeds) {f : World → World}
    (hf : ∀ w, (f w).heap = w.heap ∧ (f w).scopes = w.scopes) : (x.mapWorld f).Heeds := by
  induction x with
  | done a w => trivial
  | broke i w => trivial
  | tell c w next ih =>
    obtain ⟨⟨v, hstop, hheap, hscopes⟩, hnext⟩ := hx
    refine ⟨⟨f v, ?_, (hf v).1.trans hheap, (hf v).2.trans hscopes⟩, fun r => ih r (hnext r)⟩
    change (next .stop).mapWorld f = _
    rw [hstop]
    rfl

/-- A host that answers with a stop hears nothing more. -/
theorem Heeds.drive_stop {c : Call} {w : World} {next : Reply → Course α}
    (hx : (Course.tell c w next).Heeds) (h : Host σ) {s t : σ} (hreply : h.reply c s = (.stop, t)) :
    ∃ v, (Course.tell c w next).drive h s = (.broke .stopped v, t) ∧ v.heap = w.heap ∧
      v.scopes = w.scopes := by
  obtain ⟨⟨v, hstop, hv⟩, -⟩ := hx
  refine ⟨v, ?_, hv⟩
  rw [drive_tell, hreply, hstop, drive_broke]

theorem heeds_law : Law fun _ x => x.Heeds where
  atOnce x _ := by cases x <;> trivial
  tell f c w := ⟨⟨w, rfl, rfl, rfl⟩, fun r => by cases r <;> trivial⟩
  bind := .bind
  handle := .handle
  deeper hx w := (hx _).mapWorld fun _ => ⟨rfl, rfl⟩

end Course
end Stepper.Machine

namespace Stepper.Execution

open Syntax Machine

theorem course_heeds (p : Program) (wantsText : Bool) : (course p wantsText).Heeds :=
  course_obeys Course.heeds_law p wantsText

/-- An exception describes itself in calls that heed a stop, too. -/
theorem details_heeds {p : Program} {wantsText : Bool} {i : Interrupt} {w : World}
    {x : Course (Text × Text)} (h : details p wantsText i w = some x) : x.Heeds :=
  details_obeys Course.heeds_law h

end Stepper.Execution
