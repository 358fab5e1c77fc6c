import Mathlib.Data.List.Forall2
import Stepper.Proofs.Composition.Basic

/-!
Courses that end at once. What only reads the heap tells the host nothing and leaves the state as it
was; all that is to be said of it is which values it may end with, and for which reasons it may be
cut short. Of things done one after another all are done, or the first that cannot be done cuts the
whole short.
-/
namespace Stepper.Machine

variable {α β γ : Type} {P : α → Prop} {Q : Interrupt → Prop} {w : World}

/-- The course ends where it began: with such a value, or cut short for such a reason. -/
def Course.Settles (w : World) (P : α → Prop) (Q : Interrupt → Prop) (x : Course α) : Prop :=
  (∃ a, P a ∧ x = .done a w) ∨ ∃ i, Q i ∧ x = .broke i w

namespace Course

theorem settles_done {a : α} (ha : P a) : (Course.done a w).Settles w P Q := .inl ⟨a, ha, rfl⟩

theorem settles_broke {i : Interrupt} (hi : Q i) : (Course.broke i w : Course α).Settles w P Q :=
  .inr ⟨i, hi, rfl⟩

theorem Settles.bind {R : β → Prop} {x : Course α} {f : α → World → Course β}
    (hx : x.Settles w P Q) (hf : ∀ a, P a → (f a w).Settles w R Q) : (x.bind f).Settles w R Q := by
  obtain ⟨a, ha, rfl⟩ | ⟨i, hi, rfl⟩ := hx
  · exact hf a ha
  · exact settles_broke hi

theorem Settles.imp {P' : α → Prop} {Q' : Interrupt → Prop} {x : Course α} (hx : x.Settles w P Q)
    (hP : ∀ a, P a → P' a) (hQ : ∀ i, Q i → Q' i) : x.Settles w P' Q' := by
  obtain ⟨a, ha, rfl⟩ | ⟨i, hi, rfl⟩ := hx
  · exact settles_done (hP a ha)
  · exact settles_broke (hQ i hi)

/-- Without a reason to be cut short the course ends with a value. -/
theorem Settles.done {x : Course α} (hx : x.Settles w P fun _ => False) :
    ∃ a, P a ∧ x = .done a w := hx.resolve_right fun ⟨_, hi, _⟩ => hi

end Course

namespace Action

variable {c : Context}

/-- A loop that does the same with each element of an array, and makes something of all it got. -/
theorem settles_loop {body : Nat × List β → Action ((Nat × List β) ⊕ γ)} {es : Array α}
    {R : α → β → Prop} (last : List β → γ)
    (hnext : ∀ i v acc, es[i]? = some v → (body (i, acc) c w).Settles w
      (fun x => ∃ b, R v b ∧ x = .inl (i + 1, b :: acc)) Q)
    (hend : ∀ i acc, es[i]? = none → body (i, acc) c w = .done (.inr (last acc.reverse)) w)
    (rest : List α) (i : Nat) (hrest : es.toList.drop i = rest) (acc : List β) (fuel : Nat)
    (hfuel : rest.length < fuel) :
    (loop body fuel (i, acc) c w).Settles w
      (fun x => ∃ bs, List.Forall₂ R rest bs ∧ x = last (acc.reverse ++ bs)) Q := by
  induction rest generalizing i acc fuel with
  | nil =>
    obtain ⟨fuel, rfl⟩ := Nat.exists_eq_add_one.mpr hfuel
    have hi : es[i]? = none := by
      rw [← Array.getElem?_toList, List.getElem?_eq_none (List.drop_eq_nil_iff.mp hrest)]
    rw [loop_succ]
    change ((body (i, acc) c w).bind _).Settles w _ Q
    rw [hend i acc hi]
    exact Course.settles_done ⟨[], .nil, by rw [List.append_nil]⟩
  | cons v rest ih =>
    obtain ⟨fuel, rfl⟩ := Nat.exists_eq_add_one.mpr (Nat.zero_lt_of_lt hfuel)
    have hi : es[i]? = some v := by
      rw [← Array.getElem?_toList, ← List.head?_drop, hrest, List.head?_cons]
    have hdrop : es.toList.drop (i + 1) = rest := by
      rw [← List.tail_drop, hrest, List.tail_cons]
    rw [loop_succ]
    refine (hnext i v acc hi).bind ?_
    rintro _ ⟨b, hb, rfl⟩
    refine (ih (i + 1) hdrop (b :: acc) fuel (Nat.lt_of_succ_lt_succ hfuel)).imp ?_ fun _ => id
    rintro _ ⟨bs, hbs, rfl⟩
    exact ⟨b :: bs, .cons hb hbs, by rw [List.reverse_cons, List.append_assoc]; rfl⟩

/-- As many rounds as a run makes are enough for all elements. -/
theorem settles_repeating {body : Nat × List β → Action ((Nat × List β) ⊕ γ)} {es : Array α}
    {R : α → β → Prop} (last : List β → γ)
    (hnext : ∀ i v acc, es[i]? = some v → (body (i, acc) c w).Settles w
      (fun x => ∃ b, R v b ∧ x = .inl (i + 1, b :: acc)) Q)
    (hend : ∀ i acc, es[i]? = none → body (i, acc) c w = .done (.inr (last acc.reverse)) w)
    (hsize : es.size < maxRounds) :
    (repeating (0, []) body c w).Settles w
      (fun x => ∃ bs, List.Forall₂ R es.toList bs ∧ x = last bs) Q :=
  settles_loop last hnext hend es.toList 0 rfl [] maxRounds (by rwa [Array.length_toList])

end Action
end Stepper.Machine
