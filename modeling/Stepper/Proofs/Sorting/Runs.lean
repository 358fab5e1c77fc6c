import Stepper.Proofs.Sorting.Merging

/-!
The whole sort. The members are cut into runs, which wait one behind the other; neighbours among
them are merged in an order that depends on their lengths. At each moment the waiting runs, one
behind the other, are a stable rearrangement of what has been cut off, and each is in order. In the
end there is one.
-/
namespace Stepper.Builtin.Sort

open Machine Machine.Action

variable {α : Type} {F : Occasion} {S : α → Prop} {R : Ranking α} {less : α → α → Action Bool}

/-- The members of all runs, one run behind the other. -/
def Pending.members (p : Pending α) : List α := p.runs.reverse.flatMap Run.members

/-- The waiting runs hold these members, each in order. -/
structure Pending.Holds (R : Ranking α) (xs : List α) (p : Pending α) : Prop where
  rearranges : R.Rearranges xs p.members
  sorted : ∀ r ∈ p.runs, R.Sorted r.members

namespace Pending.Holds

variable {xs ys : List α} {p : Pending α} {q r m : Run α} {rs : List (Run α)}
  {patience patience' : Nat}

theorem empty (R : Ranking α) (patience : Nat) : Holds R [] ⟨[], patience⟩ := ⟨.refl [], nofun⟩

theorem mem (h : Holds R xs p) (hr : r ∈ p.runs) {x : α} (hx : x ∈ r.members) : x ∈ xs := by
  rw [h.rearranges.perm.mem_iff]
  exact List.mem_flatMap.mpr ⟨r, List.mem_reverse.mpr hr, hx⟩

/-- Another run comes behind all that wait. -/
theorem push (h : Holds R xs p) (hr : R.Sorts ys r.members) :
    Holds R (xs ++ ys) ⟨r :: p.runs, patience⟩ := by
  refine ⟨?_, List.forall_mem_cons.mpr ⟨hr.sorted, h.sorted⟩⟩
  have hmembers : Pending.members ⟨r :: p.runs, patience⟩ = p.members ++ r.members := by
    simp [Pending.members]
  rw [hmembers]
  exact (h.rearranges.append_right ys).trans (hr.rearranges.append_left _)

/-- Neighbours are merged. -/
theorem merge (front : List (Run α)) (h : Holds R xs ⟨front ++ r :: q :: rs, patience⟩)
    (hm : R.Sorts (q.members ++ r.members) m.members) :
    Holds R xs ⟨front ++ m :: rs, patience'⟩ := by
  refine ⟨h.rearranges.trans ?_, fun s hs => ?_⟩
  · have hmoved := (hm.rearranges.append_left (rs.reverse.flatMap Run.members)).append_right
      (front.reverse.flatMap Run.members)
    simpa [Pending.members] using hmoved
  · rcases List.mem_append.mp hs with hs | hs
    · exact h.sorted s (List.mem_append_left _ hs)
    · rcases List.mem_cons.mp hs with rfl | hs
      · exact hm.sorted
      · exact h.sorted s (List.mem_append_right _ (List.mem_cons_of_mem _ (List.mem_cons_of_mem _ hs)))

/-- The power of a boundary is of no account. -/
theorem power (h : Holds R xs ⟨r :: rs, patience⟩) (power : Nat) :
    Holds R xs ⟨{ r with power } :: rs, patience⟩ :=
  ⟨by simpa [Pending.members] using h.rearranges,
    List.forall_mem_cons.mpr (List.forall_mem_cons.mp h.sorted)⟩

end Pending.Holds

section

variable (h : Compares F S R less) {xs : List α} (hS : ∀ x ∈ xs, S x)

include h hS

/-- Neighbours that wait can be merged. -/
theorem yields_mergeNeighbours (front : List (Run α)) {rs : List (Run α)} {q r : Run α} {patience : Nat}
    (hp : Pending.Holds R xs ⟨front ++ r :: q :: rs, patience⟩) :
    (mergeRuns less patience q.members r.members).Yields F fun e =>
      R.Sorts (q.members ++ r.members) e.members := by
  have hr : r ∈ front ++ r :: q :: rs := List.mem_append_right _ List.mem_cons_self
  have hq : q ∈ front ++ r :: q :: rs :=
    List.mem_append_right _ (List.mem_cons_of_mem _ List.mem_cons_self)
  exact yields_mergeRuns h (hp.sorted q hq) (hp.sorted r hr) (List.forall_mem_append.mpr
    ⟨fun x hx => hS x (hp.mem hq hx), fun x hx => hS x (hp.mem hr hx)⟩) patience

theorem yields_collapseAbove (power fuel : Nat) {p : Pending α} (hp : p.Holds R xs) :
    (collapseAbove less power fuel p).Yields F fun p' =>
      p'.Holds R xs ∧ p'.runs.length ≤ p.runs.length := by
  induction fuel generalizing p with
  | zero => exact yields_pure ⟨hp, Nat.le_refl _⟩
  | succ fuel ih =>
    obtain ⟨runs, patience⟩ := p
    match runs with
    | [] => exact yields_pure ⟨hp, Nat.le_refl _⟩
    | [r] => exact yields_pure ⟨hp, Nat.le_refl _⟩
    | r :: q :: rs =>
      refine yields_ite (fun _ => ?_) fun _ => yields_pure ⟨hp, Nat.le_refl _⟩
      refine .bind (yields_mergeNeighbours h hS [] hp) fun merged hmerged => ?_
      refine (ih (p := ⟨⟨merged.members, q.length + r.length, q.power⟩ :: rs, merged.patience⟩)
        (hp.merge [] hmerged)).imp fun p' hp' => ⟨hp'.1, ?_⟩
      exact Nat.le_trans hp'.2 (Nat.le_succ _)

theorem yields_pushRun (total start : Nat) {p : Pending α} (hp : p.Holds R xs) {ys run : List α}
    (hrun : R.Sorts ys run) : (pushRun less total p start run).Yields F fun p' =>
      p'.Holds R (xs ++ ys) ∧ p'.runs.length ≤ p.runs.length + 1 := by
  obtain ⟨runs, patience⟩ := p
  cases runs with
  | nil => exact yields_pure ⟨hp.push (r := ⟨run, run.length, 0⟩) hrun, Nat.le_refl _⟩
  | cons r rs =>
    refine .bind (yields_collapseAbove h hS _ _ hp) fun p' hp' => ?_
    obtain ⟨runs', patience'⟩ := p'
    cases runs' with
    | nil => exact yields_pure ⟨hp'.1.push (r := ⟨run, run.length, 0⟩) hrun, Nat.succ_le_succ hp'.2⟩
    | cons r' rs' =>
      exact yields_pure ⟨(hp'.1.power _).push (r := ⟨run, run.length, 0⟩) hrun,
        Nat.succ_le_succ hp'.2⟩

theorem yields_collapseAll {fuel : Nat} {p : Pending α} (hp : p.Holds R xs)
    (hfuel : p.runs.length ≤ fuel) : (collapseAll less fuel p).Yields F (R.Sorts xs) := by
  induction fuel generalizing p with
  | zero =>
    have hnone : p.runs = [] := List.length_eq_zero_iff.mp (Nat.le_zero.mp hfuel)
    refine yields_pure ⟨hp.rearranges, ?_⟩
    rw [hnone]
    exact List.Pairwise.nil
  | succ fuel ih =>
    obtain ⟨runs, patience⟩ := p
    match runs with
    | [] => exact yields_pure ⟨hp.rearranges, List.Pairwise.nil⟩
    | [r] =>
      refine yields_pure ⟨?_, hp.sorted r List.mem_cons_self⟩
      simpa [Pending.members] using hp.rearranges
    | [r, q] =>
      refine .bind (yields_mergeNeighbours h hS [] hp) fun merged hmerged =>
        yields_pure ⟨hp.rearranges.trans ?_, hmerged.sorted⟩
      simpa [Pending.members] using hmerged.rearranges
    | r :: q :: t :: rs =>
      have hlength : (r :: q :: rs).length ≤ fuel := Nat.le_of_succ_le_succ hfuel
      refine yields_ite (fun _ => ?_) fun _ => ?_
      · refine .bind (yields_mergeNeighbours h hS [r] hp) fun merged hmerged => ?_
        exact ih (hp.merge [r]
          (m := ⟨merged.members, t.length + q.length, t.power⟩) hmerged) hlength
      · refine .bind (yields_mergeNeighbours h hS [] hp) fun merged hmerged => ?_
        exact ih (hp.merge []
          (m := ⟨merged.members, q.length + r.length, q.power⟩) hmerged) hlength

end

/-- By induction on the fuel: every run that is cut off has a member at least. -/
theorem yields_sortRuns (h : Compares F S R less) (total least : Nat) {fuel : Nat} (start : Nat)
    {xs ys : List α} {p : Pending α} (hp : p.Holds R ys) (hS : ∀ x ∈ ys ++ xs, S x)
    (hfuel : xs.length ≤ fuel) : (sortRuns less total least fuel start xs p).Yields F fun p' =>
      p'.Holds R (ys ++ xs) ∧ p'.runs.length ≤ p.runs.length + xs.length := by
  induction fuel generalizing start xs ys p with
  | zero =>
    obtain rfl := List.length_eq_zero_iff.mp (Nat.le_zero.mp hfuel)
    exact yields_pure ⟨by rwa [List.append_nil], Nat.le_refl _⟩
  | succ fuel ih =>
    cases xs with
    | nil => exact yields_pure ⟨by rwa [List.append_nil], Nat.le_refl _⟩
    | cons x xs =>
      obtain ⟨hysS, hxsS⟩ := List.forall_mem_append.mp hS
      unfold sortRuns
      refine .bind (yields_firstRun h (List.cons_ne_nil x xs) hxsS) fun cut hcut => ?_
      obtain ⟨run, rest⟩ := cut
      obtain ⟨⟨front, hsplit, hfront⟩, hpos⟩ := hcut
      dsimp -zeta only at hsplit hfront hpos ⊢
      have hmem : ∀ y ∈ front ++ rest, S y := hsplit ▸ hxsS
      obtain ⟨hfrontS, hrestS⟩ := List.forall_mem_append.mp hmem
      extract_lets more next
      have hnext (filled : List α) (hfilled : R.Sorts (front ++ rest.take more) filled) :
          (next filled).Yields F fun p' =>
            p'.Holds R (ys ++ x :: xs) ∧ p'.runs.length ≤ p.runs.length + (x :: xs).length := by
        have hwhole : ys ++ x :: xs = ys ++ (front ++ rest.take more) ++ rest.drop more := by
          rw [hsplit, List.append_assoc, List.append_assoc, List.take_append_drop]
        have hlength : front.length + rest.length = (x :: xs).length := by
          rw [hsplit, List.length_append]
        have hfrontpos : 0 < front.length := hfront.rearranges.perm.length_eq ▸ hpos
        have hdrop : (rest.drop more).length < (x :: xs).length := by
          rw [List.length_drop]
          omega
        refine .bind (yields_pushRun h hysS total start hp hfilled) fun p' hp' => ?_
        refine (ih (start + filled.length) hp'.1 (hwhole ▸ hS)
          (Nat.le_of_lt_succ (Nat.lt_of_lt_of_le hdrop hfuel))).imp fun p'' hp'' => ⟨hwhole ▸ hp''.1, ?_⟩
        have := hp'.2
        have := hp''.2
        omega
      refine yields_ite (fun _ => .bind ?_ fun filled hfilled => hnext _ hfilled) fun hlong =>
        hnext run ?_
      · refine (yields_insertAll h hfront.sorted (fun y hy => hfrontS y (hfront.mem.mp hy))
          fun y hy => hrestS y (List.mem_of_mem_take hy)).imp fun sorted hsorted =>
            hsorted.after (hfront.rearranges.append_right _)
      · have hnone : more = 0 := by omega
        rw [hnone, List.take_zero, List.append_nil]
        exact hfront

/-- The members come out in order, and none has been moved in front of one that it is not less
than. -/
theorem yields_sort (h : Compares F S R less) {xs : List α} (hS : ∀ x ∈ xs, S x) :
    (sort less xs).Yields F (R.Sorts xs) := by
  unfold sort
  refine yields_ite (fun hshort => yields_pure (.of_sorted ?_)) fun _ => ?_
  · match xs with
    | [] => exact .nil
    | [x] => exact List.pairwise_singleton _ x
    | _ :: _ :: _ => exact absurd hshort (by simp)
  · refine .bind (yields_sortRuns h _ _ 0 (.empty R minGallop) hS (Nat.le_refl _)) fun p hp => ?_
    exact yields_collapseAll h hS hp.1 (by simpa using hp.2)

end Stepper.Builtin.Sort
