import Mathlib
import Stepper.Machine.Operator
import Stepper.Proofs.Bits

/-!
Strict and loose equality. After the conversions of `==` two values are compared as they are, only
that a number reads the text that it meets; which value is converted does not depend on its side. So
`==` is symmetric, and all that can be in its way is a text with a number past the range.
-/
namespace Stepper.Machine

open Binary64

namespace Value

theorem same_comm (a b : Value) : a.same b = b.same a := by
  cases a <;> cases b <;> simp only [same, BEq.comm]

theorem same_trans : ∀ {a b c : Value}, a.same b = true → b.same c = true → a.same c = true
  | .undefined, .undefined, .undefined, _, _ => rfl
  | .null, .null, .null, _, _ => rfl
  | .bool _, .bool _, .bool _, hab, hbc => BEq.trans hab hbc
  | .number _, .number _, .number _, hab, hbc => BEq.trans hab hbc
  | .text _, .text _, .text _, hab, hbc => BEq.trans hab hbc
  | .object _, .object _, .object _, hab, hbc => BEq.trans hab hbc

/-- What a value counts as beside one of another kind: booleans are numbers. -/
def counted : Value → Value
  | .bool b => .number (boolNumber b)
  | v => v

/-- What a value is compared as with another one. An object becomes another value unless both are
objects or the other is null or undefined. -/
def beside (p : Value → Value) (a b : Value) : Value :=
  match a with
  | .object r => if b.ref?.isSome || b.isNullish then a else (p (.object r)).counted
  | a => a.counted

/-- The comparison of two values after their conversion: a number reads the text that it meets. -/
def judge (a b : Value) : Except Fault Bool :=
  match a, b with
  | .number x, .text t => do return x == (← Number.ofText t)
  | .text t, .number y => do return (← Number.ofText t) == y
  | a, b => .ok (a.isNullish && b.isNullish || a.same b)

theorem judge_comm (a b : Value) : judge a b = judge b a := by
  cases a <;> cases b <;> simp only [judge, Bool.and_comm, same_comm, BEq.comm]

/-- All that is in the way of a comparison is a text that has no number. -/
theorem judge_eq_error_iff {a b : Value} {e : Fault} : judge a b = .error e ↔
    ∃ x t, (a = .number x ∧ b = .text t ∨ a = .text t ∧ b = .number x) ∧
      Number.ofText t = .error e := by
  have hread (t : Text) (f : Float → Bool) :
      f <$> Number.ofText t = .error e ↔ Number.ofText t = .error e := by
    cases Number.ofText t with
    | error i => simp
    | ok y => exact ⟨nofun, nofun⟩
  cases a with
  | number x =>
    cases b with
    | text t => simp [judge, hread]
    | _ => simp [judge]
  | text t =>
    cases b with
    | number y => simp [judge, hread]
    | _ => simp [judge]
  | _ => simp [judge]

end Value

section

variable {p : Value → Value}

/-- The equality of `==` where objects become other values by a function. -/
def looselySame (p : Value → Value) (a b : Value) : Except Fault Bool :=
  looseSame (fun v => .ok (p v)) Number.ofText (.error .nestingTooDeep) maxConversions a b

theorem boolNumber_beq (p q : Bool) : (boolNumber p == boolNumber q) = (p == q) := by
  revert p q
  decide

/-- Without objects at most two booleans are converted before the comparison. -/
theorem looseSame_of_primitive {a b : Value} (ha : a.isPrimitive = true) (hb : b.isPrimitive = true)
    {f : Value → Except Fault Value} {e : Except Fault Bool} (steps : Nat) :
    looseSame f Number.ofText e (steps + 3) a b = Value.judge a.counted b.counted := by
  cases a with
  | object r => cases ha
  | bool p =>
    cases b with
    | object r => cases hb
    | bool q => exact congrArg Except.ok (boolNumber_beq p q).symm
    | _ => rfl
  | _ =>
    cases b with
    | object r => cases hb
    | _ => rfl

theorem looselySame_eq_judge (hp : ∀ r, (p (.object r)).isPrimitive = true) (a b : Value) :
    looselySame p a b = Value.judge (a.beside p b) (b.beside p a) := by
  cases a with
  | object r =>
    cases b with
    | undefined | null | object q => rfl
    | bool q => exact looseSame_of_primitive (hp r) rfl 3
    | _ => exact looseSame_of_primitive (hp r) rfl 4
  | undefined | null => cases b <;> rfl
  | bool q =>
    cases b with
    | object r => exact looseSame_of_primitive rfl (hp r) 3
    | _ => exact looseSame_of_primitive rfl rfl 5
  | _ =>
    cases b with
    | object r => exact looseSame_of_primitive rfl (hp r) 4
    | _ => exact looseSame_of_primitive rfl rfl 5

theorem looselySame_of_same : ∀ {a b : Value}, a.same b = true → looselySame p a b = .ok true
  | .undefined, .undefined, _ | .null, .null, _ => rfl
  | .bool _, .bool _, h | .number _, .number _, h | .text _, .text _, h
  | .object _, .object _, h => congrArg Except.ok h

theorem looselySame_of_isNullish {a : Value} (h : a.isNullish = true) (b : Value) :
    looselySame p a b = .ok b.isNullish := by
  cases a with
  | undefined | null => rfl
  | _ => cases h

/-- Where objects become values that are no objects, `==` is symmetric, also in what it fails with:
a number that meets a text without one. It extends `===`, which is symmetric and transitive, and
null and undefined are equal to each other and to nothing else. -/
theorem loose_equality_is_symmetric (hp : ∀ r, (p (.object r)).isPrimitive = true) :
    (∀ a b, looselySame p a b = looselySame p b a) ∧
    (∀ a b e, looselySame p a b = .error e ↔
      ∃ x t, (a.beside p b = .number x ∧ b.beside p a = .text t ∨
        a.beside p b = .text t ∧ b.beside p a = .number x) ∧ Number.ofText t = .error e) ∧
    (∀ a b, a.same b = true → looselySame p a b = .ok true) ∧
    (∀ a b : Value, a.same b = b.same a) ∧
    (∀ a b c : Value, a.same b = true → b.same c = true → a.same c = true) ∧
    ∀ a b, a.isNullish = true → looselySame p a b = .ok b.isNullish := by
  refine ⟨fun a b => ?_, fun a b e => ?_, fun _ _ => looselySame_of_same, Value.same_comm,
    fun _ _ _ => Value.same_trans, fun _ b h => looselySame_of_isNullish h b⟩
  · rw [looselySame_eq_judge hp, looselySame_eq_judge hp, Value.judge_comm]
  · rw [looselySame_eq_judge hp]
    exact Value.judge_eq_error_iff

/-- The integer of 256 hexadecimal digits is past the range of numbers. -/
theorem texts_past_the_range_are_not_compared :
    looselySame id (.number one)
      (.text (Text.ofString "0x" ++ List.replicate 256 0x66)) = .error .integerOutOfRange := by
  decide +kernel

end
end Stepper.Machine
