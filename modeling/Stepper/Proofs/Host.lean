import Stepper.Execution.Event

/-!
Two hosts of one program. The program learns of its host whether console calls are wanted as text,
and one reply for each call; hosts that reply alike cannot be told apart by it. What the hosts keep
to themselves is related call by call, and so at the end.
-/
namespace Stepper.Machine

variable {α σ τ : Type} {h : Host σ} {k : Host τ} {R : σ → τ → Prop}

/-- Hosts that a program cannot tell apart, as long as their states are related. -/
structure Host.RepliesAlike (h : Host σ) (k : Host τ) (R : σ → τ → Prop) : Prop where
  wantsText : h.wantsText = k.wantsText
  reply : ∀ c s t, R s t → (h.reply c s).1 = (k.reply c t).1
  keeps : ∀ c s t, R s t → R (h.reply c s).2 (k.reply c t).2

theorem Course.drive_alike (hk : h.RepliesAlike k R) (x : Course α) {s : σ} {t : τ}
    (hst : R s t) : (x.drive h s).1 = (x.drive k t).1 ∧ R (x.drive h s).2 (x.drive k t).2 := by
  induction x generalizing s t with
  | done a w => exact ⟨rfl, hst⟩
  | broke i w => exact ⟨rfl, hst⟩
  | tell c w next ih =>
    simp only [drive_tell]
    rw [hk.reply c s t hst]
    exact ih _ (hk.keeps c s t hst)

end Stepper.Machine

namespace Stepper.Execution

open Machine Syntax

variable {σ τ : Type} {h : Host σ} {k : Host τ} {R : σ → τ → Prop}

theorem run_alike (hk : h.RepliesAlike k R) (p : Program) {s : σ} {t : τ} (hst : R s t) :
    (run p h s).1 = (run p k t).1 ∧ R (run p h s).2 (run p k t).2 := by
  unfold run
  rw [hk.wantsText]
  exact (course p k.wantsText).drive_alike hk hst

/-- To describe an exception may run more of the program, under the same two hosts. -/
theorem endingOf_alike (hk : h.RepliesAlike k R) (p : Program) (i : Interrupt) (w : World)
    {s : σ} {t : τ} (hst : R s t) :
    (endingOf p h i w s).1 = (endingOf p k i w t).1 ∧
      R (endingOf p h i w s).2 (endingOf p k i w t).2 := by
  unfold endingOf
  rw [hk.wantsText]
  cases details p k.wantsText i w with
  | none => exact ⟨rfl, hst⟩
  | some x =>
    obtain ⟨heq, hrel⟩ := x.drive_alike hk hst
    rcases hs : x.drive h s with ⟨a, s'⟩
    rcases ht : x.drive k t with ⟨b, t'⟩
    obtain rfl : a = b := by rw [hs, ht] at heq; exact heq
    have hrel : R s' t' := by rw [hs, ht] at hrel; exact hrel
    simp only [hs, ht]
    cases a with
    | done d w => exact ⟨rfl, hrel⟩
    | broke i w => exact ⟨rfl, hrel⟩

end Stepper.Execution
