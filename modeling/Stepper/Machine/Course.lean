import Stepper.Machine.World

/-!
The course of an action: it ends, with a value or cut short, or it tells the host something and goes
on by the reply. A course knows nothing of the host but its replies, so all that two hosts can make
of one course is decided by how they reply.
-/
namespace Stepper.Machine

inductive Course (α : Type) where
  | done (a : α) (w : World)
  | broke (i : Interrupt) (w : World)
  /-- The state is the one in which the host is told. -/
  | tell (c : Call) (w : World) (next : Reply → Course α)

/-- Every outcome comes with the state it leaves behind. -/
inductive Outcome (α : Type) where
  | done (a : α) (w : World)
  | broke (i : Interrupt) (w : World)

namespace Course

variable {σ α β γ : Type}

/-- Goes on with the value of a course. -/
def bind (f : α → World → Course β) : Course α → Course β
  | .done a w => f a w
  | .broke i w => .broke i w
  | .tell c w next => .tell c w fun r => (next r).bind f

/-- A course that keeps what it came to, a value or what cut it short. -/
def attempt : Course α → Course (Except Interrupt α)
  | .done a w => .done (.ok a) w
  | .broke i w => .done (.error i) w
  | .tell c w next => .tell c w fun r => (next r).attempt

/-- Changes the state in which a course ends. -/
def mapWorld (f : World → World) : Course α → Course α
  | .done a w => .done a (f w)
  | .broke i w => .broke i (f w)
  | .tell c w next => .tell c w fun r => (next r).mapWorld f

/-- What a course comes to under a host, and the state in which it leaves the host. -/
def drive (h : Host σ) : Course α → σ → Outcome α × σ
  | .done a w, s => (.done a w, s)
  | .broke i w, s => (.broke i w, s)
  | .tell c _ next, s =>
    let (r, s) := h.reply c s
    (next r).drive h s

@[simp] theorem bind_done (f : α → World → Course β) (a : α) (w : World) :
    (Course.done a w).bind f = f a w := rfl

@[simp] theorem bind_broke (f : α → World → Course β) (i : Interrupt) (w : World) :
    (Course.broke i w).bind f = .broke i w := rfl

@[simp] theorem bind_tell (f : α → World → Course β) (c : Call) (w : World)
    (next : Reply → Course α) :
    (Course.tell c w next).bind f = .tell c w fun r => (next r).bind f := rfl

theorem bind_assoc (x : Course α) (f : α → World → Course β) (g : β → World → Course γ) :
    (x.bind f).bind g = x.bind fun a w => (f a w).bind g := by
  induction x with
  | done a w => rfl
  | broke i w => rfl
  | tell c w next ih => exact congrArg (Course.tell c w) (funext ih)

theorem bind_done_self (x : Course α) : x.bind (fun a w => .done a w) = x := by
  induction x with
  | done a w => rfl
  | broke i w => rfl
  | tell c w next ih => exact congrArg (Course.tell c w) (funext ih)

@[simp] theorem drive_done (h : Host σ) (a : α) (w : World) (s : σ) :
    (Course.done a w).drive h s = (.done a w, s) := rfl

@[simp] theorem drive_broke (h : Host σ) (i : Interrupt) (w : World) (s : σ) :
    (Course.broke i w : Course α).drive h s = (.broke i w, s) := rfl

@[simp] theorem drive_tell (h : Host σ) (c : Call) (w : World) (next : Reply → Course α)
    (s : σ) :
    (Course.tell c w next).drive h s = (next (h.reply c s).1).drive h (h.reply c s).2 := rfl

section

variable {h : Host σ} {s s' : σ} {x : Course α} {a : α} {i : Interrupt} {w : World}

theorem drive_bind_of_done (hx : x.drive h s = (.done a w, s')) (f : α → World → Course β) :
    (x.bind f).drive h s = (f a w).drive h s' := by
  induction x generalizing s with
  | done b v => cases hx; rfl
  | broke j v => cases hx
  | tell c v next ih => exact ih _ hx

theorem drive_bind_of_broke (hx : x.drive h s = (.broke i w, s')) (f : α → World → Course β) :
    (x.bind f).drive h s = (.broke i w, s') := by
  induction x generalizing s with
  | done b v => cases hx
  | broke j v => cases hx; rfl
  | tell c v next ih => exact ih _ hx

theorem drive_attempt_of_done (hx : x.drive h s = (.done a w, s')) :
    x.attempt.drive h s = (.done (.ok a) w, s') := by
  induction x generalizing s with
  | done b v => cases hx; rfl
  | broke j v => cases hx
  | tell c v next ih => exact ih _ hx

theorem drive_attempt_of_broke (hx : x.drive h s = (.broke i w, s')) :
    x.attempt.drive h s = (.done (.error i) w, s') := by
  induction x generalizing s with
  | done b v => cases hx
  | broke j v => cases hx; rfl
  | tell c v next ih => exact ih _ hx

end

end Course
end Stepper.Machine
