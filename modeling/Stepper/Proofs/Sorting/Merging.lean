import Stepper.Proofs.Sorting.Searching

/-!
Merges. A merge from the front moves members of two runs, one by one or as many as a search finds,
and what it has moved and what is left of either run stays in order. A merge from the back is one
from the front of both runs seen from the back, with their sides exchanged.
-/
namespace Stepper.Builtin.Sort

open Machine Machine.Action

variable {α : Type} {F : Occasion} {S : α → Prop} {R : Ranking α} {less : α → α → Action Bool}

namespace Ranking.Merges

variable {whole out left right : List α} {x y : α} {k : Nat}

/-- The first member on the right is less than all on the left. -/
theorem move_right (h : R.Merges whole out left (y :: right)) (hy : ∀ x ∈ left, R.less y x) :
    R.Merges whole (y :: out) left right :=
  h.take_right 1 fun y' hy' x hx => by
    obtain rfl := List.mem_singleton.mp hy'
    exact hy x hx

/-- The first member on the left does not go behind any on the right. -/
theorem move_left (h : R.Merges whole out (x :: left) right) (hx : ∀ y ∈ right, R.upTo x y) :
    R.Merges whole (x :: out) left right :=
  h.take_left 1 fun x' hx' y hy => by
    obtain rfl := List.mem_singleton.mp hx'
    exact hx y hy

theorem step_right (h : R.Merges whole out (x :: left) (y :: right)) (hyx : R.less y x) :
    R.Merges whole (y :: out) (x :: left) right := by
  obtain ⟨hx, -⟩ := sorted_cons.mp (sorted_append.mp h.sorted_left).2.1
  exact h.move_right (List.forall_mem_cons.mpr ⟨hyx, fun x' hx' => R.less_of_less_upTo hyx (hx x' hx')⟩)

theorem step_left (h : R.Merges whole out (x :: left) (y :: right)) (hxy : R.upTo x y) :
    R.Merges whole (x :: out) left (y :: right) := by
  obtain ⟨hy, -⟩ := sorted_cons.mp (sorted_append.mp h.sorted_right).2.1
  exact h.move_left (List.forall_mem_cons.mpr ⟨hxy, fun y' hy' => R.upTo_trans hxy (hy y' hy')⟩)

/-- A search has found which members on the left go in front of the first on the right. -/
theorem search_left (h : R.Merges whole out left (y :: right)) (hk : R.Behind y left k) :
    R.Merges whole ((left.take k).reverse ++ out) (left.drop k) (y :: right) := by
  obtain ⟨hy, -⟩ := sorted_cons.mp (sorted_append.mp h.sorted_right).2.1
  exact h.take_left k fun x hx => List.forall_mem_cons.mpr
    ⟨hk.front x hx, fun y' hy' => R.upTo_trans (hk.front x hx) (hy y' hy')⟩

/-- A search has found which members on the right go in front of the first on the left. -/
theorem search_right (h : R.Merges whole out (x :: left) right) (hk : R.Before x right k) :
    R.Merges whole ((right.take k).reverse ++ out) (x :: left) (right.drop k) := by
  obtain ⟨hx, -⟩ := sorted_cons.mp (sorted_append.mp h.sorted_left).2.1
  exact h.take_right k fun y hy => List.forall_mem_cons.mpr
    ⟨hk.front y hy, fun x' hx' => R.less_of_less_upTo (hk.front y hy) (hx x' hx')⟩

end Ranking.Merges

/-- How many members are still to be moved. -/
def Merging.size (s : Merging α) : Nat := s.left.length + s.right.length

/-- A round of the loop that merges from the front and from the back have in common, and how it goes
on. -/
def mergeRound (end? : Merging α → Option (Merged α)) (step : Merging α → Action (Merging α))
    (search : Merging α → Action (Merged α ⊕ Merging α))
    (next : Bool → Merging α → Action (Merged α)) (searching : Bool) (s : Merging α) :
    Action (Merged α) := do
  match end? s with
  | some e => return e
  | none =>
    if searching then
      match ← search s with
      | .inl e => return e
      | .inr s =>
        match end? s with
        | some e => return e
        | none =>
          if minGallop ≤ s.leftWins || minGallop ≤ s.rightWins then next true s
          else next false s.afterSearch
    else
      let s ← step s
      match end? s with
      | some e => return e
      | none =>
        if s.patience ≤ max s.leftWins s.rightWins then
          next true { s with patience := s.patience + 1 }
        else next false s

def mergeLoop (end? : Merging α → Option (Merged α)) (step : Merging α → Action (Merging α))
    (search : Merging α → Action (Merged α ⊕ Merging α)) (rest : Merging α → Merged α) :
    Nat → Bool → Merging α → Action (Merged α)
  | 0, _, s => pure (rest s)
  | fuel + 1, searching, s =>
    mergeRound end? step search (mergeLoop end? step search rest fuel) searching s

theorem mergeFront_eq (fuel : Nat) (searching : Bool) (s : Merging α) :
    mergeFront less fuel searching s = mergeLoop Merging.frontEnd? (stepFront less)
      (searchFront less) (fun s => ⟨s.out.reverse ++ s.left ++ s.right, s.patience⟩) fuel searching
      s := by
  induction fuel generalizing searching s with
  | zero => rfl
  | succ fuel ih =>
    exact congrArg (mergeRound Merging.frontEnd? (stepFront less) (searchFront less) · searching s)
      (funext fun searching => funext (ih searching))

theorem mergeBack_eq (fuel : Nat) (searching : Bool) (s : Merging α) :
    mergeBack less fuel searching s = mergeLoop Merging.backEnd? (stepBack less)
      (searchBack less) (fun s => ⟨s.left.reverse ++ s.right.reverse ++ s.out, s.patience⟩) fuel
      searching s := by
  induction fuel generalizing searching s with
  | zero => rfl
  | succ fuel ih =>
    exact congrArg (mergeRound Merging.backEnd? (stepBack less) (searchBack less) · searching s)
      (funext fun searching => funext (ih searching))

/-- What a round of the loop comes to: the end, or a state with less to move. -/
def Round (V : Merging α → Prop) (Q : List α → Prop) (s : Merging α) :
    Merged α ⊕ Merging α → Prop
  | .inl e => Q e.members
  | .inr s' => V s' ∧ s'.size < s.size

/-- An invariant of the loop, which does not look at wins and patience. -/
structure Invariant (F : Occasion) (V : Merging α → Prop) (Q : List α → Prop)
    (end? : Merging α → Option (Merged α)) (step : Merging α → Action (Merging α))
    (search : Merging α → Action (Merged α ⊕ Merging α)) : Prop where
  ends : ∀ s e, V s → end? s = some e → Q e.members
  step : ∀ s, V s → end? s = none → (step s).Yields F fun s' => V s' ∧ s'.size < s.size
  search : ∀ s, V s → end? s = none → (search s).Yields F (Round V Q s)
  wins : ∀ s leftWins rightWins patience, V s → V ⟨s.left, s.right, s.out, leftWins, rightWins, patience⟩

variable {V : Merging α → Prop} {Q : List α → Prop} {end? : Merging α → Option (Merged α)}
  {step : Merging α → Action (Merging α)} {search : Merging α → Action (Merged α ⊕ Merging α)}

/-- By induction on the fuel, of which every round takes one, and moves a member at least. -/
theorem yields_mergeLoop (h : Invariant F V Q end? step search) (rest : Merging α → Merged α)
    {fuel : Nat} (searching : Bool) {s : Merging α} (hs : V s) (hfuel : s.size < fuel) :
    (mergeLoop end? step search rest fuel searching s).Yields F fun e => Q e.members := by
  induction fuel generalizing searching s with
  | zero => exact absurd hfuel (Nat.not_lt_zero _)
  | succ fuel ih =>
    unfold mergeLoop mergeRound
    cases hend : end? s with
    | some e => exact yields_pure (h.ends s e hs hend)
    | none =>
      refine yields_ite (fun _ => .bind (h.search s hs hend) fun found hfound => ?_) fun _ =>
        .bind (h.step s hs hend) fun s' hs' => ?_
      · cases found with
        | inl e => exact yields_pure hfound
        | inr s' =>
          have hless : s'.size < fuel := Nat.lt_of_lt_of_le hfound.2 (Nat.le_of_lt_succ hfuel)
          dsimp only
          cases hend' : end? s' with
          | some e => exact yields_pure (h.ends s' e hfound.1 hend')
          | none =>
            exact yields_ite (fun _ => ih true hfound.1 hless) fun _ =>
              ih false (s := s'.afterSearch) (h.wins s' _ _ _ hfound.1) hless
      · have hless : s'.size < fuel := Nat.lt_of_lt_of_le hs'.2 (Nat.le_of_lt_succ hfuel)
        cases hend' : end? s' with
        | some e => exact yields_pure (h.ends s' e hs'.1 hend')
        | none =>
          exact yields_ite (fun _ => ih true (s := { s' with patience := s'.patience + 1 })
            (h.wins s' _ _ _ hs'.1) hless) fun _ => ih false hs'.1 hless

/-! ### From the front -/

section

variable (h : Compares F S R less) {whole : List α} (hwhole : ∀ x ∈ whole, S x)

/-- The members are those of two runs. -/
def Merging.Front (R : Ranking α) (whole : List α) (s : Merging α) : Prop :=
  R.Merges whole s.out s.left s.right

theorem Merging.Front.sorts {s : Merging α} {e : Merged α} (hs : s.Front R whole)
    (he : s.frontEnd? = some e) : R.Sorts whole e.members := by
  obtain ⟨left, right, out, leftWins, rightWins, patience⟩ := s
  cases right with
  | nil =>
    cases he
    exact Ranking.Merges.sorts_left hs
  | cons y right =>
    match left with
    | [] =>
      cases he
      exact Ranking.Merges.sorts_right hs
    | [x] =>
      cases he
      exact Ranking.Merges.sorts_last hs
    | _ :: _ :: _ => cases he

include h hwhole

theorem yields_stepFront {s : Merging α} (hs : s.Front R whole) (hend : s.frontEnd? = none) :
    (stepFront less s).Yields F fun s' => s'.Front R whole ∧ s'.size < s.size := by
  obtain ⟨left, right, out, leftWins, rightWins, patience⟩ := s
  match left, right with
  | _, [] => cases hend
  | [], _ :: _ => cases hend
  | x :: left, y :: right =>
    have hx := hwhole x (hs.mem_left List.mem_cons_self)
    have hy := hwhole y (hs.mem_right List.mem_cons_self)
    refine .bind (h y x hy hx) fun answer hanswer => ?_
    cases answer with
    | true => exact yields_pure ⟨hs.step_right hanswer, by simp [Merging.size]⟩
    | false => exact yields_pure ⟨hs.step_left hanswer, by simp [Merging.size]⟩

theorem yields_searchFront {s : Merging α} (hs : s.Front R whole) (hend : s.frontEnd? = none) :
    (searchFront less s).Yields F (Round (·.Front R whole) (R.Sorts whole) s) := by
  obtain ⟨left, right, out, leftWins, rightWins, patience⟩ := s
  cases right with
  | nil => cases hend
  | cons y right =>
    have hy : S y := hwhole y (hs.mem_right List.mem_cons_self)
    have hleft : R.Sorted left := (Ranking.sorted_append.mp hs.sorted_left).2.1
    refine .bind (yields_gallopRight h hy hleft (fun x hx => hwhole x (hs.mem_left hx))
      (Nat.zero_le _)) fun k hk => ?_
    extract_lets s early
    have hfront : s.Front R whole := hs.search_left hk
    have hshorter : s.left.length ≤ left.length := by simp [s]
    have hgreater : ∀ x ∈ s.left, R.less y x := hk.back
    have hsright : s.right = y :: right := rfl
    have hearly : ∀ e, early = some e → s.frontEnd? = some e := by
      intro e he
      dsimp only [early] at he
      split at he
      · cases he
      · exact he
    clear_value early s
    cases early with
    | some e => exact yields_pure (hfront.sorts (hearly e rfl))
    | none =>
      obtain ⟨left', right', out', leftWins', rightWins', patience'⟩ := s
      dsimp only at hsright hshorter
      subst hsright
      have hmoved : R.Merges whole (y :: out') left' right := hfront.move_right hgreater
      have hless : left'.length + right.length < left.length + (y :: right).length := by
        simp only [List.length_cons]
        omega
      cases left' with
      | nil => exact yields_pure ⟨hmoved, hless⟩
      | cons x left' =>
        have hx : S x := hwhole x (hmoved.mem_left List.mem_cons_self)
        have hright : R.Sorted right := (Ranking.sorted_append.mp hmoved.sorted_right).2.1
        refine yields_ite (fun _ => yields_pure ⟨hmoved, hless⟩) fun _ => .bind
          (yields_gallopLeft h hx hright (fun y hy => hwhole y (hmoved.mem_right hy))
            (Nat.zero_le _)) fun k hk => ?_
        have hsearched := hmoved.search_right hk
        have hdrop : (right.drop k).length ≤ right.length := by simp
        refine yields_ite (fun _ => yields_pure ⟨hsearched, ?_⟩) fun _ =>
          yields_pure ⟨hsearched.move_left hk.back, ?_⟩
        · exact Nat.lt_of_le_of_lt (Nat.add_le_add_left hdrop _) hless
        · exact Nat.lt_of_le_of_lt (Nat.add_le_add (Nat.le_succ _) hdrop) hless

theorem invariant_front : Invariant F (·.Front R whole) (R.Sorts whole) Merging.frontEnd?
    (stepFront less) (searchFront less) where
  ends _ _ := Merging.Front.sorts
  step _ := yields_stepFront h hwhole
  search _ := yields_searchFront h hwhole
  wins _ _ _ _ := id

end

/-! ### From the back -/

namespace Ranking

variable {x : α} {xs : List α} {k : Nat}

theorem Behind.reverse (h : R.Behind x xs.reverse k) : R.flip.Before x xs (xs.length - k) := by
  obtain ⟨hfront, hback⟩ := h
  rw [List.take_reverse] at hfront
  rw [List.drop_reverse] at hback
  exact ⟨fun y hy => hback y (List.mem_reverse.mpr hy),
    fun y hy => hfront y (List.mem_reverse.mpr hy)⟩

theorem Before.reverse (h : R.Before x xs.reverse k) : R.flip.Behind x xs (xs.length - k) := by
  obtain ⟨hfront, hback⟩ := h
  rw [List.take_reverse] at hfront
  rw [List.drop_reverse] at hback
  exact ⟨fun y hy => hback y (List.mem_reverse.mpr hy),
    fun y hy => hfront y (List.mem_reverse.mpr hy)⟩

end Ranking

section

variable (h : Compares F S R less) {whole : List α} (hwhole : ∀ x ∈ whole, S x)

/-- Seen from the back, the right side is the first. -/
def Merging.Back (R : Ranking α) (whole : List α) (s : Merging α) : Prop :=
  R.flip.Merges whole.reverse s.out s.right s.left

/-- What has been merged, seen from the back. -/
def Ranking.SortsBack (R : Ranking α) (whole members : List α) : Prop :=
  R.flip.Sorts whole.reverse members.reverse

theorem Merging.Back.sorts {s : Merging α} {e : Merged α} (hs : s.Back R whole)
    (he : s.backEnd? = some e) : R.SortsBack whole e.members := by
  unfold Ranking.SortsBack
  obtain ⟨left, right, out, leftWins, rightWins, patience⟩ := s
  cases left with
  | nil =>
    cases he
    simpa using Ranking.Merges.sorts_left hs
  | cons x left =>
    match right with
    | [] =>
      cases he
      simpa using Ranking.Merges.sorts_right hs
    | [y] =>
      cases he
      simpa using Ranking.Merges.sorts_last hs
    | _ :: _ :: _ => cases he

include hwhole in
theorem Merging.Back.holds {s : Merging α} (hs : s.Back R whole) :
    (∀ x ∈ s.left, S x) ∧ ∀ y ∈ s.right, S y :=
  ⟨fun x hx => hwhole x (List.mem_reverse.mp (hs.mem_right hx)),
    fun y hy => hwhole y (List.mem_reverse.mp (hs.mem_left hy))⟩

include h hwhole

theorem yields_stepBack {s : Merging α} (hs : s.Back R whole) (hend : s.backEnd? = none) :
    (stepBack less s).Yields F fun s' => s'.Back R whole ∧ s'.size < s.size := by
  obtain ⟨hleftS, hrightS⟩ := hs.holds hwhole
  obtain ⟨left, right, out, leftWins, rightWins, patience⟩ := s
  match left, right with
  | [], _ => cases hend
  | _ :: _, [] => cases hend
  | x :: left, y :: right =>
    refine .bind (h y x (hrightS y List.mem_cons_self) (hleftS x List.mem_cons_self))
      fun answer hanswer => ?_
    cases answer with
    | true => exact yields_pure ⟨hs.step_right hanswer, by simp [Merging.size]⟩
    | false => exact yields_pure ⟨hs.step_left hanswer, by simp [Merging.size]⟩

theorem yields_searchBack {s : Merging α} (hs : s.Back R whole) (hend : s.backEnd? = none) :
    (searchBack less s).Yields F (Round (·.Back R whole) (R.SortsBack whole) s) := by
  obtain ⟨hleftS, hrightS⟩ := hs.holds hwhole
  obtain ⟨left, right, out, leftWins, rightWins, patience⟩ := s
  match left, right with
  | [], _ => cases hend
  | _ :: _, [] => cases hend
  | x₀ :: left₀, y :: right =>
    generalize hleft₀ : x₀ :: left₀ = left at hs hleftS
    have hy : S y := hrightS y List.mem_cons_self
    have hleft : R.Sorted left.reverse := (Ranking.sorted_append.mp hs.sorted_right).2.1.reverse
    refine .bind (yields_gallopRight h hy hleft
      (fun x hx => hleftS x (List.mem_reverse.mp hx)) (by simp)) fun g hg => ?_
    extract_lets k s s₁ n
    have hfront : s.Back R whole := hs.search_right hg.reverse
    have hshorter : s.left.length ≤ left.length := by simp [s]
    have hgreater : ∀ x ∈ s.left, R.flip.upTo y x := hg.reverse.back
    have hsright : s.right = y :: right := rfl
    subst n s₁
    clear_value s
    obtain ⟨left', right', out', leftWins', rightWins', patience'⟩ := s
    dsimp only at hsright hshorter
    subst hsright
    have hmoved : R.flip.Merges whole.reverse (y :: out') right left' := hfront.move_left hgreater
    have hless : left'.length + right.length < left.length + (y :: right).length := by
      simp only [List.length_cons]
      omega
    cases left' with
    | nil =>
      refine yields_pure ⟨hfront, ?_⟩
      simp [Merging.size, ← hleft₀]
    | cons x left' =>
      have hx : S x := hwhole x (List.mem_reverse.mp (hmoved.mem_right List.mem_cons_self))
      have hright : R.Sorted right.reverse :=
        (Ranking.sorted_append.mp hmoved.sorted_left).2.1.reverse
      refine yields_ite nofun fun _ => yields_ite (fun _ => yields_pure ⟨hmoved, hless⟩) fun _ =>
        .bind (yields_gallopLeft h hx hright (fun y hy => hwhole y (List.mem_reverse.mp
          (hmoved.mem_left (List.mem_reverse.mp hy)))) (by simp)) fun g hg => ?_
      extract_lets k s early
      have hfound : s.Back R whole := hmoved.search_left hg.reverse
      have hdrop : s.right.length ≤ right.length := by simp [s]
      have hbehind : ∀ y ∈ s.right, R.flip.less x y := hg.reverse.back
      have hearly : ∀ e, early = some e → s.backEnd? = some e := by
        intro e he
        dsimp only [early] at he
        split at he
        · cases he
        · exact he
      have hsleft : s.left = x :: left' := rfl
      clear_value early s
      cases early with
      | some e => exact yields_pure (hfound.sorts (hearly e rfl))
      | none =>
        refine yields_pure ⟨Ranking.Merges.move_right (hsleft ▸ hfound) hbehind, ?_⟩
        exact Nat.lt_of_le_of_lt (Nat.add_le_add (Nat.le_succ _) hdrop) hless

theorem invariant_back : Invariant F (·.Back R whole) (R.SortsBack whole) Merging.backEnd?
    (stepBack less) (searchBack less) where
  ends _ _ := Merging.Back.sorts
  step _ := yields_stepBack h hwhole
  search _ := yields_searchBack h hwhole
  wins _ _ _ _ := id

end

/-! ### Two runs -/

section

variable (h : Compares F S R less) {left right : List α}

/-- Two runs, the first member of the right one less than all on the left, and the last of the left
one behind all on the right. -/
structure Ranking.Interlocks (R : Ranking α) (left right : List α) : Prop where
  sorted_left : R.Sorted left
  sorted_right : R.Sorted right
  first : ∀ y ∈ right.head?, ∀ x ∈ left, R.less y x
  last : ∀ x ∈ left.getLast?, ∀ y ∈ right, R.less y x

theorem Ranking.Interlocks.merges (hruns : R.Interlocks left right) :
    R.Merges (left ++ right) [] left right :=
  ⟨.refl _, hruns.sorted_left, hruns.sorted_right, hruns.last⟩

theorem Ranking.Interlocks.reverse (hruns : R.Interlocks left right) :
    R.flip.Interlocks right.reverse left.reverse where
  sorted_left := hruns.sorted_right.reverse
  sorted_right := hruns.sorted_left.reverse
  first x hx y hy := hruns.last x (List.head?_reverse ▸ hx) y (List.mem_reverse.mp hy)
  last y hy x hx := hruns.first y (List.getLast?_reverse ▸ hy) x (List.mem_reverse.mp hx)

variable (hS : ∀ x ∈ left ++ right, S x)

include h hS

theorem yields_mergeLow (hruns : R.Interlocks left right) (patience : Nat) :
    (mergeLow less patience left right).Yields F fun e => R.Sorts (left ++ right) e.members := by
  cases right with
  | nil => exact yields_pure (by simpa using .of_sorted hruns.sorted_left)
  | cons y right =>
    have hstart := hruns.merges.move_right (hruns.first y rfl)
    rw [mergeLow, mergeFront_eq]
    refine yields_mergeLoop (invariant_front h hS) _ false hstart ?_
    change left.length + right.length < _
    omega

theorem yields_mergeHigh (hruns : R.Interlocks left right) (patience : Nat) :
    (mergeHigh less patience left right).Yields F fun e => R.Sorts (left ++ right) e.members := by
  have hback := hruns.reverse.merges
  unfold mergeHigh
  cases hleft : left.reverse with
  | nil =>
    rw [List.reverse_eq_nil_iff.mp hleft]
    exact yields_pure (.of_sorted hruns.sorted_right)
  | cons x left' =>
    rw [hleft, ← hleft, ← List.reverse_append, hleft] at hback
    have hlast : x ∈ left.getLast? := by
      rw [← List.head?_reverse, hleft]
      rfl
    have hstart := hback.move_right fun y hy => hruns.last x hlast y (List.mem_reverse.mp hy)
    dsimp only
    rw [mergeBack_eq]
    refine (yields_mergeLoop (invariant_back h hS) _ false
      (s := ⟨left', right.reverse, [x], 0, 0, patience⟩) hstart ?_).imp fun e he => ?_
    · have hlength : left.length = left'.length + 1 := by
        rw [← List.length_reverse, hleft, List.length_cons]
      change left'.length + right.reverse.length < _
      rw [List.length_reverse]
      omega
    · have hsorts := Ranking.Sorts.reverse he
      rw [List.reverse_reverse, List.reverse_reverse] at hsorts
      exact hsorts

end

/-- The last member of a sorted list is in front of none. -/
theorem Ranking.Sorted.last {xs : List α} {z : α} (hxs : R.Sorted xs) (hz : z ∈ xs) :
    ∃ x ∈ xs.getLast?, z = x ∨ R.upTo z x := by
  have hne : xs ≠ [] := List.ne_nil_of_mem hz
  refine ⟨xs.getLast hne, List.getLast?_eq_some_getLast hne, ?_⟩
  rw [← List.dropLast_concat_getLast hne] at hxs hz
  rcases List.mem_append.mp hz with hz | hz
  · exact .inr ((sorted_append.mp hxs).2.2 z hz _ (List.mem_singleton_self _))
  · exact .inl (List.mem_singleton.mp hz)

/-- What is in place on both ends stays there, and between them is what was merged. -/
theorem Ranking.Sorts.between (mid : List α) {left right : List α} {y : α} {k n : Nat}
    (hleft : R.Sorted left) (hright : R.Sorted (y :: right)) (hk : R.Behind y left k)
    (hn : ∀ x ∈ (left.drop k).getLast?, R.Before x (y :: right) n)
    (hmid : R.Sorts (left.drop k ++ (y :: right).take n) mid) :
    R.Sorts (left ++ y :: right) (left.take k ++ mid ++ (y :: right).drop n) := by
  have hfront : ∀ x ∈ left.take k, ∀ z ∈ y :: right, R.upTo x z := fun x hx =>
    List.forall_mem_cons.mpr ⟨hk.front x hx, fun z hz =>
      R.upTo_trans (hk.front x hx) ((sorted_cons.mp hright).1 z hz)⟩
  have hsplit : R.Sorted (left.take k ++ left.drop k) := by rwa [List.take_append_drop]
  obtain ⟨htake, hdrop, hinside⟩ := sorted_append.mp hsplit
  have hsplit' : R.Sorted ((y :: right).take n ++ (y :: right).drop n) := by
    rwa [List.take_append_drop]
  obtain ⟨-, htail, hinside'⟩ := sorted_append.mp hsplit'
  have hback : ∀ x ∈ left.drop k, ∀ z ∈ (y :: right).drop n, R.upTo x z := fun x hx z hz => by
    obtain ⟨last, hlast, rfl | hx⟩ := hdrop.last hx
    · exact (hn _ hlast).back z hz
    · exact R.upTo_trans hx ((hn last hlast).back z hz)
  constructor
  · have hmoved := (hmid.rearranges.append_left (left.take k)).append_right ((y :: right).drop n)
    rwa [List.append_assoc, List.append_assoc, List.take_append_drop, ← List.append_assoc,
      List.take_append_drop] at hmoved
  · refine sorted_append.mpr ⟨sorted_append.mpr ⟨htake, hmid.sorted, fun x hx z hz => ?_⟩, htail,
      fun x hx z hz => ?_⟩
    · rcases List.mem_append.mp (hmid.mem.mp hz) with hz | hz
      · exact hinside x hx z hz
      · exact hfront x hx z (List.mem_of_mem_take hz)
    · rcases List.mem_append.mp hx with hx | hx
      · exact hfront x hx z (List.mem_of_mem_drop hz)
      · rcases List.mem_append.mp (hmid.mem.mp hx) with hx | hx
        · exact hback x hx z hz
        · exact hinside' x hx z hz

/-- Two neighbouring runs are merged. -/
theorem yields_mergeRuns (h : Compares F S R less) {left right : List α} (hleft : R.Sorted left)
    (hright : R.Sorted right) (hS : ∀ x ∈ left ++ right, S x) (patience : Nat) :
    (mergeRuns less patience left right).Yields F fun e => R.Sorts (left ++ right) e.members := by
  obtain ⟨hleftS, hrightS⟩ := List.forall_mem_append.mp hS
  cases right with
  | nil => exact yields_pure (by simpa using .of_sorted hleft)
  | cons y right =>
    refine .bind (yields_gallopRight h (hrightS y List.mem_cons_self) hleft hleftS
      (Nat.zero_le _)) fun k hk => ?_
    extract_lets head left'
    have hleft' : R.Sorted left' := hleft.sublist (List.drop_sublist k left)
    have hleftS' : ∀ x ∈ left', S x := fun x hx => hleftS x (List.mem_of_mem_drop hx)
    cases hlast : left'.getLast? with
    | none =>
      have hnone : left.drop k = [] := List.getLast?_eq_none_iff.mp hlast
      have hsorts := Ranking.Sorts.between [] (n := 0) hleft hright hk
        (by rw [hnone]; nofun) (by simpa [hnone] using .of_sorted List.Pairwise.nil)
      exact yields_pure (by simpa using hsorts)
    | some x =>
      have hx : S x := hleftS' x (List.mem_of_getLast? hlast)
      refine .bind (yields_gallopLeft h hx hright hrightS (by simp)) fun n hn => ?_
      extract_lets tail right'
      have hright' : R.Sorted right' := hright.sublist (List.take_sublist n _)
      have hrightS' : ∀ y ∈ right', S y := fun y hy => hrightS y (List.mem_of_mem_take hy)
      have hbetween (mid : List α) (hmid : R.Sorts (left' ++ right') mid) :
          R.Sorts (left ++ y :: right) (head ++ mid ++ tail) :=
        .between mid hleft hright hk (fun x' hx' => by
          obtain rfl : x = x' := Option.some.inj (hlast.symm.trans hx')
          exact hn) hmid
      have hruns : R.Interlocks left' right' := by
        refine ⟨hleft', hright', fun y' hy' x' hx' => ?_, fun x' hx' y' hy' => ?_⟩
        · obtain rfl : y = y' := by
            cases n with
            | zero => cases hy'
            | succ n => exact Option.some.inj hy'
          exact hk.back x' hx'
        · obtain rfl : x = x' := Option.some.inj (hlast.symm.trans hx')
          exact hn.front y' hy'
      have hS' : ∀ x ∈ left' ++ right', S x := List.forall_mem_append.mpr ⟨hleftS', hrightS'⟩
      refine yields_ite (fun hempty => ?_) fun _ => yields_ite (fun _ => ?_) fun _ => ?_
      · refine yields_pure (hbetween left' ?_)
        rw [List.isEmpty_iff.mp hempty, List.append_nil]
        exact .of_sorted hleft'
      · exact .bind (yields_mergeLow h hS' hruns patience) fun e he => yields_pure (hbetween _ he)
      · exact .bind (yields_mergeHigh h hS' hruns patience) fun e he => yields_pure (hbetween _ he)

end Stepper.Builtin.Sort
