import Stepper.Builtin.Sort
import Stepper.Proofs.Composition.Basic

/-!
Sorting is composed if its comparison is. A comparison may be a function of the program, and sorting
looks at nothing but its answers.
-/
namespace Stepper.Builtin.Sort

open Machine Machine.Action

variable {K : Means} {t : Targets} {α : Type} {less : α → α → Action Bool}
  (h : ∀ a b, (less a b).Composed K t)

section

include h

/-- A run is measured by one comparison for each member. -/
@[grind ←] theorem composed_runLength (descending : Bool) (x : α) (ys : List α) :
    (runLength less descending x ys).Composed K t := by
  induction ys generalizing x with
  | nil => exact composed_pure 0
  | cons y ys ih =>
    exact .bind (h y x) fun answer =>
      composed_ite (.bind (ih y) fun n => composed_pure (1 + n)) (composed_pure 0)

@[grind ←] theorem composed_firstRun (xs : List α) : (firstRun less xs).Composed K t := by
  match xs with
  | [] => exact composed_pure _
  | [x] => exact composed_pure _
  | x :: y :: ys =>
    exact .bind (h y x) fun descending =>
      .bind (composed_runLength h descending y ys) fun n => composed_pure _

/-- A place is found by one comparison in each round. -/
@[grind ←] theorem composed_insertionPoint (xs : Array α) (pivot : α) (fuel lo hi : Nat) :
    (insertionPoint less xs pivot fuel lo hi).Composed K t := by
  induction fuel generalizing lo hi with
  | zero => exact composed_pure lo
  | succ fuel ih =>
    refine composed_ite ?_ (composed_pure lo)
    extract_lets mid
    cases xs[mid]? with
    | none => exact composed_pure lo
    | some x => exact .bind (h pivot x) fun answer => composed_ite (ih ..) (ih ..)

/-- Each member is inserted where its search ends. -/
@[grind ←] theorem composed_insertAll (run : Array α) (xs : List α) :
    (insertAll less run xs).Composed K t := by
  induction xs generalizing run with
  | nil => exact composed_pure run
  | cons x xs ih => exact .bind (composed_insertionPoint h ..) fun i => ih _

end

/-- The bounds of a search grow by one question in each round. -/
@[grind ←] theorem composed_grow {goesOn : Nat → Action Bool} (h : ∀ n, (goesOn n).Composed K t)
    (bound fuel last step : Nat) : (grow goesOn bound fuel last step).Composed K t := by
  induction fuel generalizing last step with
  | zero => exact composed_pure _
  | succ fuel ih =>
    exact composed_ite
      (.bind (h step) fun answer => composed_ite (ih ..) (composed_pure _)) (composed_pure _)

@[grind ←] theorem composed_bisect {isBehind : Nat → Action Bool} (h : ∀ n, (isBehind n).Composed K t)
    (fuel lo hi : Nat) : (bisect isBehind fuel lo hi).Composed K t := by
  induction fuel generalizing lo hi with
  | zero => exact composed_pure lo
  | succ fuel ih =>
    exact composed_ite
      (.bind (h _) fun answer => composed_ite (ih ..) (ih ..)) (composed_pure lo)

/-- A search from a hint is made of questions. -/
@[grind ←] theorem composed_gallop {isBefore : Nat → Action Bool} (h : ∀ n, (isBefore n).Composed K t)
    (n hint : Nat) : (gallop isBefore n hint).Composed K t := by
  refine .bind (h hint) fun answer => composed_ite ?_ ?_
  · exact .bind (composed_grow (fun k => h _) ..) fun p => composed_bisect h ..
  · have hbehind (k) : (do return !(← isBefore (hint - k)) : Action Bool).Composed K t :=
      .bind (h _) fun answer => composed_pure _
    exact .bind (composed_grow hbehind ..) fun p => composed_bisect h ..

section

include h

@[grind ←] theorem composed_gallopLeft (key : α) (xs : Array α) (hint : Nat) :
    (gallopLeft less key xs hint).Composed K t := by
  refine composed_gallop (fun i => ?_) xs.size hint
  cases xs[i]? with
  | none => exact composed_pure false
  | some x => exact h x key

@[grind ←] theorem composed_gallopRight (key : α) (xs : Array α) (hint : Nat) :
    (gallopRight less key xs hint).Composed K t := by
  refine composed_gallop (fun i => ?_) xs.size hint
  cases xs[i]? with
  | none => exact composed_pure false
  | some x => exact .bind (h key x) fun answer => composed_pure _

/-- One comparison decides which member goes out. -/
@[grind ←] theorem composed_stepFront (s : Merging α) : (stepFront less s).Composed K t := by
  unfold stepFront
  cases s.left with
  | nil => exact composed_pure s
  | cons x left =>
    cases s.right with
    | nil => exact composed_pure s
    | cons y right =>
      exact .bind (h y x) fun answer => composed_ite (composed_pure _) (composed_pure _)

@[grind ←] theorem composed_searchFront (s : Merging α) : (searchFront less s).Composed K t := by
  obtain ⟨left, right, out, leftWins, rightWins, patience⟩ := s
  cases right with
  | nil => exact composed_pure _
  | cons y right =>
    refine .bind (composed_gallopRight h y left.toArray 0) fun k => ?_
    extract_lets s early
    clear_value early s
    cases early with
    | some e => exact composed_pure _
    | none =>
      cases s.left with
      | nil => exact composed_pure _
      | cons x left =>
        exact composed_ite (composed_pure _) (.bind (composed_gallopLeft h ..) fun k =>
          composed_ite (composed_pure _) (composed_pure _))

/-- A merge from the front is made of comparisons, by induction on the rounds. -/
@[grind ←] theorem composed_mergeFront (fuel : Nat) (searching : Bool) (s : Merging α) :
    (mergeFront less fuel searching s).Composed K t := by
  induction fuel generalizing searching s with
  | zero => exact composed_pure _
  | succ fuel ih =>
    unfold mergeFront
    cases s.frontEnd? with
    | some e => exact composed_pure e
    | none =>
      refine composed_ite (.bind (composed_searchFront h s) fun found => ?_)
        (.bind (composed_stepFront h s) fun s => ?_)
      · cases found with
        | inl e => exact composed_pure e
        | inr s =>
          cases hend : s.frontEnd? with
          | some e => simpa only [hend] using composed_pure e
          | none => simpa only [hend] using composed_ite (ih ..) (ih ..)
      · cases s.frontEnd? with
        | some e => exact composed_pure e
        | none => exact composed_ite (ih ..) (ih ..)

/-- A merge from the front, with what is left appended. -/
@[grind ←] theorem composed_mergeLow (patience : Nat) (left right : List α) :
    (mergeLow less patience left right).Composed K t := by
  cases right with
  | nil => exact composed_pure _
  | cons y right => exact composed_mergeFront h ..

@[grind ←] theorem composed_stepBack (s : Merging α) : (stepBack less s).Composed K t := by
  unfold stepBack
  cases s.left with
  | nil => exact composed_pure s
  | cons x left =>
    cases s.right with
    | nil => exact composed_pure s
    | cons y right =>
      exact .bind (h y x) fun answer => composed_ite (composed_pure _) (composed_pure _)

@[grind ←] theorem composed_searchBack (s : Merging α) : (searchBack less s).Composed K t := by
  obtain ⟨left, right, out, leftWins, rightWins, patience⟩ := s
  cases right with
  | nil => exact composed_pure _
  | cons y right =>
    refine .bind (composed_gallopRight h y left.reverse.toArray (left.length - 1)) fun k => ?_
    refine composed_ite (composed_pure _) ?_
    extract_lets s
    clear_value s
    cases s.left with
    | nil => exact composed_pure _
    | cons x left =>
      refine composed_ite (composed_pure _) (.bind (composed_gallopLeft h ..) fun k => ?_)
      extract_lets k s early
      clear_value early
      cases early with
      | none => exact composed_pure _
      | some e => exact composed_pure _

/-- A merge from the back is made of comparisons, by induction on the rounds. -/
@[grind ←] theorem composed_mergeBack (fuel : Nat) (searching : Bool) (s : Merging α) :
    (mergeBack less fuel searching s).Composed K t := by
  induction fuel generalizing searching s with
  | zero => exact composed_pure _
  | succ fuel ih =>
    unfold mergeBack
    cases s.backEnd? with
    | some e => exact composed_pure e
    | none =>
      refine composed_ite (.bind (composed_searchBack h s) fun found => ?_)
        (.bind (composed_stepBack h s) fun s => ?_)
      · cases found with
        | inl e => exact composed_pure e
        | inr s =>
          cases hend : s.backEnd? with
          | some e => simpa only [hend] using composed_pure e
          | none => simpa only [hend] using composed_ite (ih ..) (ih ..)
      · cases s.backEnd? with
        | some e => exact composed_pure e
        | none => exact composed_ite (ih ..) (ih ..)

@[grind ←] theorem composed_mergeHigh (patience : Nat) (left right : List α) :
    (mergeHigh less patience left right).Composed K t := by
  unfold mergeHigh
  cases left.reverse with
  | nil => exact composed_pure _
  | cons x left => exact composed_mergeBack h ..

/-- Two runs are trimmed at both ends, and what is left of them is merged. -/
@[grind ←] theorem composed_mergeRuns (patience : Nat) (left right : List α) :
    (mergeRuns less patience left right).Composed K t := by
  cases right with
  | nil => exact composed_pure _
  | cons y right =>
    refine .bind (composed_gallopRight h y left.toArray 0) fun k => ?_
    extract_lets head left
    cases left.getLast? with
    | none => exact composed_pure _
    | some x =>
      refine .bind (composed_gallopLeft h x ..) fun n => composed_ite (composed_pure _) ?_
      exact composed_ite (.bind (composed_mergeLow h ..) fun merged => composed_pure _)
        (.bind (composed_mergeHigh h ..) fun merged => composed_pure _)

/-- Runs are merged two at a time. -/
@[grind ←] theorem composed_collapseAbove (power fuel : Nat) (p : Pending α) :
    (collapseAbove less power fuel p).Composed K t := by
  induction fuel generalizing p with
  | zero => exact composed_pure p
  | succ fuel ih =>
    obtain ⟨runs, patience⟩ := p
    match runs with
    | [] => exact composed_pure _
    | [r] => exact composed_pure _
    | r :: q :: rs =>
      exact composed_ite (.bind (composed_mergeRuns h ..) fun merged => ih _) (composed_pure _)

@[grind ←] theorem composed_pushRun (total : Nat) (p : Pending α) (start : Nat) (run : List α) :
    (pushRun less total p start run).Composed K t := by
  obtain ⟨runs, patience⟩ := p
  cases runs with
  | nil => exact composed_pure _
  | cons r rs =>
    exact .bind (composed_collapseAbove h ..) fun p => composed_pure _

@[grind ←] theorem composed_collapseAll (fuel : Nat) (p : Pending α) :
    (collapseAll less fuel p).Composed K t := by
  induction fuel generalizing p with
  | zero => exact composed_pure _
  | succ fuel ih =>
    obtain ⟨runs, patience⟩ := p
    match runs with
    | [] => exact composed_pure _
    | [r] => exact composed_pure _
    | [r, q] => exact .bind (composed_mergeRuns h ..) fun merged => composed_pure _
    | r :: q :: t :: rs =>
      exact composed_ite (.bind (composed_mergeRuns h ..) fun merged => ih _)
        (.bind (composed_mergeRuns h ..) fun merged => ih _)

/-- Each run is found, filled up and pushed. -/
@[grind ←] theorem composed_sortRuns (total least fuel start : Nat) (xs : List α)
    (p : Pending α) : (sortRuns less total least fuel start xs p).Composed K t := by
  induction fuel generalizing start xs p with
  | zero => cases xs <;> exact composed_pure p
  | succ fuel ih =>
    cases xs with
    | nil => exact composed_pure p
    | cons x xs =>
      unfold sortRuns
      refine .bind (composed_firstRun h (x :: xs)) fun (run, rest) => ?_
      dsimp -zeta only
      extract_lets more next
      have hnext (run) : (next run).Composed K t := .bind (composed_pushRun h ..) fun p => ih ..
      exact composed_ite (.bind (composed_insertAll h ..) fun run => hnext _) (hnext run)

/-- A sort is made of comparisons only. -/
@[grind ←] theorem composed_sort (xs : List α) : (sort less xs).Composed K t := by
  unfold sort
  exact composed_ite (composed_pure _)
    (.bind (composed_sortRuns h ..) fun p => composed_collapseAll h ..)

end

end Stepper.Builtin.Sort
