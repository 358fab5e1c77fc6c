import Stepper.Builtin.Sort

/-!
What a sort may do with what it is told. The answers to comparisons rank the members: one is less
than another, or does not go behind it. A stable rearrangement is one that is made by moving a
member, again and again, in front of a neighbour that it is less than. If nothing is to be relied
on, since the answers do not fit together, every member may be moved, and rearrangements are
permutations.
-/
namespace Stepper.Builtin.Sort

variable {α : Type}

/-- What answers say of members: that one is less than another, or does not go behind it. -/
structure Ranking (α : Type) where
  less : α → α → Prop
  upTo : α → α → Prop
  upTo_of_less : ∀ {a b}, less a b → upTo a b
  less_of_less_upTo : ∀ {a b c}, less a b → upTo b c → less a c
  less_of_upTo_less : ∀ {a b c}, upTo a b → less b c → less a c
  upTo_trans : ∀ {a b c}, upTo a b → upTo b c → upTo a c

namespace Ranking

/-- Nothing is relied on. -/
def any : Ranking α :=
  ⟨fun _ _ => True, fun _ _ => True, id, fun _ _ => trivial, fun _ _ => trivial, fun _ _ => trivial⟩

/-- The ranking by a total preorder. -/
def ofPreorder (le : α → α → Prop) (htotal : ∀ a b, le a b ∨ le b a)
    (htrans : ∀ a b c, le a b → le b c → le a c) : Ranking α where
  less a b := ¬ le b a
  upTo := le
  upTo_of_less {a b} h := (htotal a b).resolve_right h
  less_of_less_upTo hab hbc hca := hab (htrans _ _ _ hbc hca)
  less_of_upTo_less hab hbc hca := hbc (htrans _ _ _ hca hab)
  upTo_trans := htrans _ _ _

/-- The ranking of the members seen from the back. -/
def flip (R : Ranking α) : Ranking α where
  less a b := R.less b a
  upTo a b := R.upTo b a
  upTo_of_less := R.upTo_of_less
  less_of_less_upTo hab hbc := R.less_of_upTo_less hbc hab
  less_of_upTo_less hab hbc := R.less_of_less_upTo hbc hab
  upTo_trans hab hbc := R.upTo_trans hbc hab

/-- What the answer to a comparison says. -/
def Answer (R : Ranking α) (a b : α) : Bool → Prop
  | true => R.less a b
  | false => R.upTo b a

variable {R : Ranking α} {a b x y z : α} {xs ys zs front back : List α}

inductive Rearranges (R : Ranking α) : List α → List α → Prop
  | refl (xs : List α) : Rearranges R xs xs
  | swap {a b : α} (h : R.less b a) (front back : List α) :
    Rearranges R (front ++ a :: b :: back) (front ++ b :: a :: back)
  | trans {xs ys zs : List α} (h : Rearranges R xs ys) (k : Rearranges R ys zs) :
    Rearranges R xs zs

namespace Rearranges

theorem perm (h : R.Rearranges xs ys) : xs.Perm ys := by
  induction h with
  | refl xs => exact .refl xs
  | swap _ front back => exact .append_left front (.swap _ _ back)
  | trans _ _ ih ih' => exact ih.trans ih'

theorem append_left (h : R.Rearranges xs ys) (front : List α) :
    R.Rearranges (front ++ xs) (front ++ ys) := by
  induction h with
  | refl xs => exact .refl _
  | swap h front' back =>
    rw [← List.append_assoc, ← List.append_assoc]
    exact .swap h _ back
  | trans _ _ ih ih' => exact ih.trans ih'

theorem append_right (h : R.Rearranges xs ys) (back : List α) :
    R.Rearranges (xs ++ back) (ys ++ back) := by
  induction h with
  | refl xs => exact .refl _
  | swap h front back' =>
    rw [List.append_assoc, List.append_assoc]
    exact .swap h front _
  | trans _ _ ih ih' => exact ih.trans ih'

theorem reverse (h : R.Rearranges xs ys) : R.flip.Rearranges xs.reverse ys.reverse := by
  induction h with
  | refl xs => exact .refl _
  | @swap a b h front back =>
    simp only [List.reverse_append, List.reverse_cons, List.append_assoc, List.singleton_append]
    exact .swap (R := R.flip) h back.reverse front.reverse
  | trans _ _ ih ih' => exact ih.trans ih'

/-- One member is moved past others that it is less than. -/
theorem past (h : ∀ x ∈ xs, R.less y x) : R.Rearranges (xs ++ [y]) (y :: xs) := by
  induction xs with
  | nil => exact .refl _
  | cons x xs ih =>
    obtain ⟨hx, hxs⟩ := List.forall_mem_cons.mp h
    exact ((ih hxs).append_left [x]).trans (.swap hx [] xs)

/-- Members are moved past others that all of them are less than. -/
theorem exchange (h : ∀ y ∈ ys, ∀ x ∈ xs, R.less y x) :
    R.Rearranges (xs ++ ys) (ys ++ xs) := by
  induction ys with
  | nil => simpa using .refl xs
  | cons y ys ih =>
    obtain ⟨hy, hys⟩ := List.forall_mem_cons.mp h
    have hfirst : R.Rearranges (xs ++ y :: ys) (y :: xs ++ ys) := by
      simpa using (past hy).append_right ys
    exact hfirst.trans ((ih hys).append_left [y])

theorem reversed (h : xs.Pairwise fun a b => R.less b a) : R.Rearranges xs xs.reverse := by
  induction xs with
  | nil => exact .refl []
  | cons x xs ih =>
    obtain ⟨hx, hxs⟩ := List.pairwise_cons.mp h
    have hback : R.Rearranges ([x] ++ xs) (xs ++ [x]) := exchange fun y hy x' hx' => by
      obtain rfl := List.mem_singleton.mp hx'
      exact hx y hy
    rw [List.reverse_cons]
    exact hback.trans ((ih hxs).append_right [x])

/-- Members among which none is less than another stay in their order. -/
theorem filter_eq (h : R.Rearranges xs ys) {p : α → Bool}
    (hp : ∀ a ∈ xs, ∀ b ∈ xs, p a = true → p b = true → ¬ R.less b a) :
    ys.filter p = xs.filter p := by
  induction h with
  | refl xs => rfl
  | @swap a b h front back =>
    have hpair : (b :: a :: back).filter p = (a :: b :: back).filter p := by
      cases ha : p a <;> cases hb : p b <;> simp only [List.filter_cons, ha, hb] <;> try rfl
      exact absurd h (hp a (by simp) b (by simp) ha hb)
    rw [List.filter_append, List.filter_append, hpair]
  | trans h _ ih ih' =>
    refine (ih' fun a ha b hb => ?_).trans (ih hp)
    exact hp a (h.perm.mem_iff.mpr ha) b (h.perm.mem_iff.mpr hb)

end Rearranges

def Sorted (R : Ranking α) (xs : List α) : Prop := xs.Pairwise R.upTo

theorem Sorted.sublist (h : R.Sorted ys) (hxs : xs.Sublist ys) : R.Sorted xs :=
  List.Pairwise.sublist hxs h

theorem Sorted.reverse (h : R.Sorted xs) : R.flip.Sorted xs.reverse := List.pairwise_reverse.mpr h

theorem sorted_append :
    R.Sorted (xs ++ ys) ↔ R.Sorted xs ∧ R.Sorted ys ∧ ∀ x ∈ xs, ∀ y ∈ ys, R.upTo x y :=
  List.pairwise_append

theorem sorted_cons : R.Sorted (x :: xs) ↔ (∀ y ∈ xs, R.upTo x y) ∧ R.Sorted xs :=
  List.pairwise_cons

/-- A list in order that is a stable rearrangement of another. -/
structure Sorts (R : Ranking α) (xs ys : List α) : Prop where
  rearranges : R.Rearranges xs ys
  sorted : R.Sorted ys

theorem Sorts.of_sorted (h : R.Sorted xs) : R.Sorts xs xs := ⟨.refl xs, h⟩

theorem Sorts.after (h : R.Sorts ys zs) (hxs : R.Rearranges xs ys) : R.Sorts xs zs :=
  ⟨hxs.trans h.rearranges, h.sorted⟩

theorem Sorts.reverse (h : R.Sorts xs ys) : R.flip.Sorts xs.reverse ys.reverse :=
  ⟨h.rearranges.reverse, h.sorted.reverse⟩

theorem Sorts.mem (h : R.Sorts xs ys) : x ∈ ys ↔ x ∈ xs := h.rearranges.perm.mem_iff.symm

/-- So many members of a list do not go behind `x`, and it is less than the others. -/
structure Behind (R : Ranking α) (x : α) (xs : List α) (k : Nat) : Prop where
  front : ∀ y ∈ xs.take k, R.upTo y x
  back : ∀ y ∈ xs.drop k, R.less x y

/-- So many members of a list are less than `x`, and it does not go behind the others. -/
structure Before (R : Ranking α) (x : α) (xs : List α) (k : Nat) : Prop where
  front : ∀ y ∈ xs.take k, R.less y x
  back : ∀ y ∈ xs.drop k, R.upTo x y

/-- A further member is put in its place. -/
theorem Behind.sorts {k : Nat} (h : R.Behind x xs k) (hxs : R.Sorted xs) :
    R.Sorts (xs ++ [x]) (xs.take k ++ x :: xs.drop k) := by
  refine ⟨?_, ?_⟩
  · have hmove := (Rearranges.past h.back).append_left (xs.take k)
    rwa [← List.append_assoc, List.take_append_drop] at hmove
  · rw [← List.take_append_drop k xs, sorted_append] at hxs
    obtain ⟨hfront, hback, hacross⟩ := hxs
    refine sorted_append.mpr ⟨hfront,
      sorted_cons.mpr ⟨fun y hy => R.upTo_of_less (h.back y hy), hback⟩, fun y hy z hz => ?_⟩
    rcases List.mem_cons.mp hz with rfl | hz
    · exact h.front y hy
    · exact hacross y hy z hz

/-- Of two sorted lists some members have been moved, in order, to the front; what is left of the
second is less than the last member of the first. -/
structure Merges (R : Ranking α) (whole out left right : List α) : Prop where
  rearranges : R.Rearranges whole (out.reverse ++ left ++ right)
  sorted_left : R.Sorted (out.reverse ++ left)
  sorted_right : R.Sorted (out.reverse ++ right)
  last : ∀ x ∈ left.getLast?, ∀ y ∈ right, R.less y x

namespace Merges

variable {whole out left right : List α}

theorem mem_left (h : R.Merges whole out left right) (hx : x ∈ left) : x ∈ whole := by
  rw [h.rearranges.perm.mem_iff]
  simp [hx]

theorem mem_right (h : R.Merges whole out left right) (hx : x ∈ right) : x ∈ whole := by
  rw [h.rearranges.perm.mem_iff]
  simp [hx]

/-- Members of the first list that do not go behind the second are in place. -/
theorem take_left (h : R.Merges whole out left right) (k : Nat)
    (hk : ∀ x ∈ left.take k, ∀ y ∈ right, R.upTo x y) :
    R.Merges whole ((left.take k).reverse ++ out) (left.drop k) right := by
  have hsame : ((left.take k).reverse ++ out).reverse ++ left.drop k = out.reverse ++ left := by
    simp
  have hright := sorted_append.mp h.sorted_right
  refine ⟨by rw [hsame]; exact h.rearranges, by rw [hsame]; exact h.sorted_left, ?_, fun x hx => ?_⟩
  · rw [List.reverse_append, List.reverse_reverse]
    refine sorted_append.mpr
      ⟨h.sorted_left.sublist ((List.take_sublist k left).append_left _), hright.2.1, fun x hx y hy => ?_⟩
    rcases List.mem_append.mp hx with hx | hx
    · exact hright.2.2 x hx y hy
    · exact hk x hx y hy
  · rw [List.getLast?_drop] at hx
    split at hx
    · cases hx
    · exact h.last x hx

/-- Members of the second list that are less than the first are moved past it. -/
theorem take_right (h : R.Merges whole out left right) (k : Nat)
    (hk : ∀ y ∈ right.take k, ∀ x ∈ left, R.less y x) :
    R.Merges whole ((right.take k).reverse ++ out) left (right.drop k) := by
  have hsame : ((right.take k).reverse ++ out).reverse ++ right.drop k = out.reverse ++ right := by
    simp
  have hleft := sorted_append.mp h.sorted_left
  refine ⟨h.rearranges.trans ?_, ?_, by rw [hsame]; exact h.sorted_right,
    fun x hx y hy => h.last x hx y (List.mem_of_mem_drop hy)⟩
  · have hmove := ((Rearranges.exchange hk).append_left out.reverse).append_right (right.drop k)
    simpa [List.append_assoc] using hmove
  · rw [List.reverse_append, List.reverse_reverse]
    refine sorted_append.mpr
      ⟨h.sorted_right.sublist ((List.take_sublist k right).append_left _), hleft.2.1, fun y hy x hx => ?_⟩
    rcases List.mem_append.mp hy with hy | hy
    · exact hleft.2.2 y hy x hx
    · exact R.upTo_of_less (hk y hy x hx)

theorem sorts_left (h : R.Merges whole out left []) : R.Sorts whole (out.reverse ++ left) :=
  ⟨by simpa using h.rearranges, h.sorted_left⟩

theorem sorts_right (h : R.Merges whole out [] right) : R.Sorts whole (out.reverse ++ right) :=
  ⟨by simpa using h.rearranges, h.sorted_right⟩

/-- The last member of the first list goes behind the second. -/
theorem sorts_last (h : R.Merges whole out [x] right) :
    R.Sorts whole (out.reverse ++ right ++ [x]) := by
  have hall := (h.take_right right.length fun y hy x' hx' => by
    obtain rfl := List.mem_singleton.mp hx'
    exact h.last x' rfl y (List.mem_of_mem_take hy))
  rw [List.take_length, List.drop_length] at hall
  simpa using hall.sorts_left

end Merges
end Ranking
end Stepper.Builtin.Sort
