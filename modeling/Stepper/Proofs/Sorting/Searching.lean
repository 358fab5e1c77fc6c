import Stepper.Proofs.Composition.Basic
import Stepper.Proofs.Sorting.Ranking

/-!
What comparisons tell. A comparison is an action: it may have effects and may be cut short. It is
made in states of one kind and leaves such a state behind; a sort that makes comparisons and looks
at nothing but their answers does the same, and is cut short only as they are. By the answers a run
ends where the order turns, and a search by halving or by growing steps finds the place of a member.
-/
namespace Stepper.Machine

variable {α β : Type}

namespace Course

/-- However the host replies, the course ends in this way, or is cut short in that. -/
def Comes (ended : α → World → Prop) (broken : Interrupt → World → Prop) : Course α → Prop
  | .done a w => ended a w
  | .broke i w => broken i w
  | .tell _ _ next => ∀ r, (next r).Comes ended broken

variable {Q : α → World → Prop} {J : Interrupt → World → Prop}

theorem Comes.imp {Q' : α → World → Prop} {J' : Interrupt → World → Prop} {x : Course α}
    (hx : x.Comes Q J) (hQ : ∀ a w, Q a w → Q' a w) (hJ : ∀ i w, J i w → J' i w) :
    x.Comes Q' J' := by
  induction x with
  | done a w => exact hQ a w hx
  | broke i w => exact hJ i w hx
  | tell c w next ih => exact fun r => ih r (hx r)

theorem Comes.bind {R : β → World → Prop} {x : Course α} {f : α → World → Course β}
    (hx : x.Comes Q J) (hf : ∀ a w, Q a w → (f a w).Comes R J) : (x.bind f).Comes R J := by
  induction x with
  | done a w => exact hf a w hx
  | broke i w => exact hx
  | tell c w next ih => exact fun r => ih r (hx r)

/-- What a course comes to in several ways it comes to in all of them. -/
theorem Comes.and_forall {ι : Type} {p : ι → Prop} {Q' : ι → α → World → Prop} {x : Course α}
    (hx : x.Comes Q J) (h : ∀ l, p l → x.Comes (Q' l) J) :
    x.Comes (fun a w => Q a w ∧ ∀ l, p l → Q' l a w) J := by
  induction x with
  | done a w => exact ⟨hx, h⟩
  | broke i w => exact hx
  | tell c w next ih => exact fun r => ih r (hx r) fun l hl => h l hl r

/-- Under a host. -/
theorem Comes.drive {σ : Type} {x : Course α} (hx : x.Comes Q J) (h : Host σ) {s t : σ}
    {y : Outcome α} (hy : x.drive h s = (y, t)) :
    (∃ a w, y = .done a w ∧ Q a w) ∨ ∃ i w, y = .broke i w ∧ J i w := by
  induction x generalizing s with
  | done a w =>
    cases hy
    exact .inl ⟨a, w, rfl, hx⟩
  | broke i w =>
    cases hy
    exact .inr ⟨i, w, rfl, hx⟩
  | tell c w next ih => exact ih _ (hx _) hy

end Course

/-- Where comparisons are made: in which context, in which states, and how they may be cut short. -/
structure Occasion where
  context : Context
  holds : World → Prop
  breaks : Interrupt → World → Prop

/-- An action that leaves such a state behind as it begins in, and comes to what is said. -/
def Action.Yields (F : Occasion) (Q : α → Prop) (x : Action α) : Prop :=
  ∀ w, F.holds w → (x F.context w).Comes (fun a v => F.holds v ∧ Q a) F.breaks

namespace Action

variable {F : Occasion} {Q Q' : α → Prop} {R : β → Prop}

theorem yields_pure {a : α} (ha : Q a) : (pure a : Action α).Yields F Q := fun _ hw => ⟨hw, ha⟩

theorem Yields.bind {x : Action α} {f : α → Action β} (hx : x.Yields F Q)
    (hf : ∀ a, Q a → (f a).Yields F R) : (x >>= f).Yields F R :=
  fun w hw => (hx w hw).bind fun a v hv => hf a hv.2 v hv.1

theorem Yields.imp {x : Action α} (hx : x.Yields F Q) (h : ∀ a, Q a → Q' a) : x.Yields F Q' :=
  fun w hw => (hx w hw).imp (fun a _ hv => ⟨hv.1, h a hv.2⟩) fun _ _ => id

theorem Yields.and_forall {ι : Type} {p : ι → Prop} {Q' : ι → α → Prop} {x : Action α}
    (hx : x.Yields F Q) (h : ∀ l, p l → x.Yields F (Q' l)) :
    x.Yields F fun a => Q a ∧ ∀ l, p l → Q' l a :=
  fun w hw => ((hx w hw).and_forall fun l hl => h l hl w hw).imp
    (fun _ _ ha => ⟨ha.1.1, ha.1.2, fun l hl => (ha.2 l hl).2⟩) fun _ _ => id

theorem yields_ite {p : Prop} [Decidable p] {x y : Action α} (hx : p → x.Yields F Q)
    (hy : ¬ p → y.Yields F Q) : (if p then x else y).Yields F Q := by
  split
  · exact hx ‹p›
  · exact hy ‹¬ p›

end Action
end Stepper.Machine

namespace Stepper.Builtin.Sort

open Machine Machine.Action

variable {α : Type} {F : Occasion} {S : α → Prop} {R : Ranking α} {less : α → α → Action Bool}

/-- The comparison answers about such members by a ranking. -/
def Compares (F : Occasion) (S : α → Prop) (R : Ranking α) (less : α → α → Action Bool) : Prop :=
  ∀ a b, S a → S b → (less a b).Yields F (R.Answer a b)

/-- What neighbours in a run are to each other. -/
def Ranking.Goes (R : Ranking α) (descending : Bool) (a b : α) : Prop :=
  R.Answer b a descending

theorem Ranking.Goes.trans {descending : Bool} {a b c : α} (hab : R.Goes descending a b)
    (hbc : R.Goes descending b c) : R.Goes descending a c := by
  cases descending with
  | true => exact R.less_of_less_upTo hbc (R.upTo_of_less hab)
  | false => exact R.upTo_trans hab hbc

/-- One more in front of what goes all one way. -/
theorem Ranking.Goes.cons {descending : Bool} {x y : α} {ys : List α} (hxy : R.Goes descending x y)
    (hys : (y :: ys).Pairwise (R.Goes descending)) :
    (x :: y :: ys).Pairwise (R.Goes descending) := by
  refine List.pairwise_cons.mpr ⟨fun z hz => ?_, hys⟩
  rcases List.mem_cons.mp hz with rfl | hz
  · exact hxy
  · exact hxy.trans ((List.pairwise_cons.mp hys).1 z hz)

/-- The run ends where a neighbour goes the other way. -/
theorem yields_runLength (h : Compares F S R less) (descending : Bool) {x : α} (hx : S x)
    {ys : List α} (hys : ∀ y ∈ ys, S y) : (runLength less descending x ys).Yields F fun n =>
      (x :: ys.take n).Pairwise (R.Goes descending) := by
  induction ys generalizing x with
  | nil => exact yields_pure (List.pairwise_singleton _ x)
  | cons y ys ih =>
    obtain ⟨hy, hys⟩ := List.forall_mem_cons.mp hys
    refine .bind (h y x hy hx) fun answer hanswer => yields_ite (fun hgoes => ?_) fun _ =>
      yields_pure (List.pairwise_singleton _ x)
    refine .bind (ih hy hys) fun n hn => yields_pure ?_
    obtain rfl : answer = descending := by simpa using hgoes
    rw [Nat.add_comm]
    exact Ranking.Goes.cons hanswer hn

/-- What has been cut off in front, in order, and the rest. -/
structure Ranking.CutsOff (R : Ranking α) (xs : List α) (p : List α × List α) : Prop where
  sorts : ∃ front, xs = front ++ p.2 ∧ R.Sorts front p.1
  pos : 0 < p.1.length

theorem yields_firstRun (h : Compares F S R less) {xs : List α} (hne : xs ≠ [])
    (hxs : ∀ x ∈ xs, S x) : (firstRun less xs).Yields F (R.CutsOff xs) := by
  match xs with
  | [] => exact absurd rfl hne
  | [x] =>
    exact yields_pure ⟨⟨[x], rfl, .of_sorted (List.pairwise_singleton _ x)⟩, Nat.zero_lt_one⟩
  | x :: y :: ys =>
    obtain ⟨hx, hxs⟩ := List.forall_mem_cons.mp hxs
    obtain ⟨hy, hys⟩ := List.forall_mem_cons.mp hxs
    refine .bind (h y x hy hx) fun descending hfirst =>
      .bind (yields_runLength h descending hy hys) fun n hn => yields_pure ?_
    have htake : (x :: y :: ys).take (2 + n) = x :: y :: ys.take n := by
      rw [Nat.add_comm]
      rfl
    have hgoes : (x :: y :: ys.take n).Pairwise (R.Goes descending) :=
      Ranking.Goes.cons hfirst hn
    rw [htake]
    refine ⟨⟨x :: y :: ys.take n, ?_, ?_⟩, ?_⟩
    · rw [← htake, List.take_append_drop]
    · cases descending with
      | true =>
        refine ⟨.reversed hgoes, ?_⟩
        exact List.pairwise_reverse.mpr (hgoes.imp R.upTo_of_less)
      | false => exact .of_sorted hgoes
    · cases descending <;> simp

/-- Up to a place one thing is so, and from there on another. -/
structure Divides (P N : Nat → Prop) (k : Nat) : Prop where
  front : ∀ i, i < k → P i
  back : ∀ i, k ≤ i → N i

/-- A question about places whose answers go from yes to no, once. -/
structure Asks (F : Occasion) (P N : Nat → Prop) (question : Nat → Action Bool) : Prop where
  answer : ∀ i, (question i).Yields F fun answer =>
    (answer = true → P i) ∧ (answer = false → N i)
  down : ∀ {i j}, i ≤ j → P j → P i
  up : ∀ {i j}, i ≤ j → N i → N j

variable {P N : Nat → Prop} {question : Nat → Action Bool}

theorem yields_bisect (h : Asks F P N question) (fuel : Nat) {lo hi : Nat} (hfuel : hi ≤ lo + fuel)
    (hlo : ∀ i, i < lo → P i) (hhi : ∀ i, hi ≤ i → N i) :
    (bisect question fuel lo hi).Yields F (Divides P N) := by
  induction fuel generalizing lo hi with
  | zero => exact yields_pure ⟨hlo, fun i hi => hhi i (Nat.le_trans hfuel hi)⟩
  | succ fuel ih =>
    refine yields_ite (fun hlt => ?_) fun hge =>
      yields_pure ⟨hlo, fun i hi => hhi i (Nat.le_trans (Nat.le_of_not_lt hge) hi)⟩
    extract_lets mid
    have hmid : lo ≤ mid ∧ mid < hi := by omega
    refine .bind (h.answer mid) fun answer hanswer =>
      yields_ite (fun hyes => ih (by omega) (fun i hi => ?_) hhi) fun hno =>
        ih (by omega) hlo fun i hi => ?_
    · exact h.down (Nat.le_of_lt_succ hi) (hanswer.1 hyes)
    · exact h.up hi (hanswer.2 (by simpa using hno))

/-- The binary insertion asks for the place in the same way. -/
theorem insertionPoint_eq (xs : Array α) (pivot : α) (fuel lo hi : Nat) (hhi : hi ≤ xs.size) :
    insertionPoint less xs pivot fuel lo hi =
      bisect (fun i => match xs[i]? with
        | some x => do return !(← less pivot x)
        | none => pure false) fuel lo hi := by
  induction fuel generalizing lo hi with
  | zero => rfl
  | succ fuel ih =>
    unfold insertionPoint bisect
    by_cases hlt : lo < hi
    · have hmid : lo + (hi - lo) / 2 < hi := by omega
      simp only [if_pos hlt, Array.getElem?_eq_getElem (Nat.lt_of_lt_of_le hmid hhi)]
      rw [← ih _ hi hhi, ← ih lo _ (Nat.le_trans (Nat.le_of_lt hmid) hhi)]
      rw [Action.bind_assoc]
      refine congrArg (less pivot _ >>= ·) (funext fun answer => ?_)
      cases answer <;> rfl
    · simp only [if_neg hlt]

/-- The last step taken, and one that is not, as far as steps go. -/
structure Grown (P N : Nat → Prop) (bound : Nat) (p : Nat × Nat) : Prop where
  last : P p.1
  le : p.2 ≤ bound
  step : p.2 < bound → N p.2

theorem yields_grow
    (h : ∀ i, (question i).Yields F fun answer => (answer = true → P i) ∧ (answer = false → N i))
    (bound fuel last step : Nat) (hfuel : bound ≤ fuel + step) (hlast : P last) :
    (grow question bound fuel last step).Yields F (Grown P N bound) := by
  have hbound (hge : bound ≤ step) : Grown P N bound (last, min step bound) := by
    rw [Nat.min_eq_right hge]
    exact ⟨hlast, Nat.le_refl bound, fun hlt => absurd hlt (Nat.lt_irrefl bound)⟩
  induction fuel generalizing last step with
  | zero => exact yields_pure (hbound (by omega))
  | succ fuel ih =>
    refine yields_ite (fun hlt => ?_) fun hge => yields_pure (hbound (Nat.le_of_not_lt hge))
    refine .bind (h step) fun answer hanswer => yields_ite (fun hyes => ?_) fun hno => ?_
    · refine ih _ _ (by omega) (hanswer.1 hyes) fun hge => ?_
      rw [Nat.min_eq_right hge]
      exact ⟨hanswer.1 hyes, Nat.le_refl bound, fun hlt => absurd hlt (Nat.lt_irrefl bound)⟩
    · exact yields_pure ⟨hlast, Nat.le_of_lt hlt, fun _ => hanswer.2 (by simpa using hno)⟩

/-- A search from a hint on finds the place where the answers turn. -/
theorem yields_gallop (h : Asks F P N question) {n hint : Nat} (hhint : hint ≤ n)
    (hn : ∀ i, n ≤ i → N i) : (gallop question n hint).Yields F (Divides P N) := by
  refine .bind (h.answer hint) fun answer hanswer => yields_ite (fun hyes => ?_) fun hno => ?_
  · have hgrow := yields_grow (P := fun k => P (hint + k)) (N := fun k => N (hint + k))
      (fun k => h.answer (hint + k)) (n - hint) (n + 1) 0 1 (by omega)
      (hanswer.1 hyes)
    refine .bind hgrow fun p hp => yields_bisect h _ ?_ (fun i hi => ?_) fun i hi => ?_
    · have := hp.le
      omega
    · exact h.down (Nat.le_of_lt_succ hi) hp.last
    · by_cases hstep : p.2 < n - hint
      · exact h.up hi (hp.step hstep)
      · exact hn i (by omega)
  · have hback (k : Nat) : (do return !(← question (hint - k)) : Action Bool).Yields F fun answer =>
        (answer = true → N (hint - k)) ∧ (answer = false → P (hint - k)) :=
      .bind (h.answer _) fun answer hanswer => yields_pure
        ⟨fun hyes => hanswer.2 (by simpa using hyes), fun hno => hanswer.1 (by simpa using hno)⟩
    have hgrow := yields_grow (P := fun k => N (hint - k)) (N := fun k => P (hint - k)) hback
      (hint + 1) (n + 1) 0 1 (by omega) (hanswer.2 (by simpa using hno))
    refine .bind hgrow fun p hp => yields_bisect h _ ?_ (fun i hi => ?_) fun i hi => ?_
    · have := hp.le
      omega
    · exact h.down (by omega) (hp.step (by omega))
    · exact h.up hi hp.last

section

variable {p q : α → Prop} {xs : List α}

/-- A place in a list: up to it the members are so, and from there on otherwise. -/
theorem Divides.forall_mem {k : Nat}
    (hk : Divides (fun i => ∃ x, xs[i]? = some x ∧ p x) (fun i => ∀ x, xs[i]? = some x → q x) k) :
    (∀ x ∈ xs.take k, p x) ∧ ∀ x ∈ xs.drop k, q x := by
  refine ⟨fun x hx => ?_, fun x hx => ?_⟩
  · obtain ⟨i, hi⟩ := List.mem_iff_getElem?.mp hx
    rw [List.getElem?_take] at hi
    split at hi
    · obtain ⟨y, hy, hp⟩ := hk.front i ‹i < k›
      rw [hy] at hi
      cases hi
      exact hp
    · cases hi
  · obtain ⟨i, hi⟩ := List.mem_iff_getElem?.mp hx
    rw [List.getElem?_drop] at hi
    exact hk.back (k + i) (Nat.le_add_right k i) x hi

theorem Ranking.Sorted.eq_or_upTo (hsorted : R.Sorted xs) {i j : Nat} (hij : i ≤ j) {x y : α}
    (hx : xs[i]? = some x) (hy : xs[j]? = some y) : x = y ∨ R.upTo x y := by
  rcases Nat.lt_or_eq_of_le hij with hlt | rfl
  · obtain ⟨hi, rfl⟩ := List.getElem?_eq_some_iff.mp hx
    obtain ⟨hj, rfl⟩ := List.getElem?_eq_some_iff.mp hy
    exact .inr (List.pairwise_iff_getElem.mp hsorted i j hi hj hlt)
  · exact .inl (Option.some.inj (hx.symm.trans hy))

/-- In a sorted list a question about members has answers that turn once, if it is passed on from a
member to those it may follow, and its denial to those that may follow it. -/
theorem asks_members {ask : α → Action Bool} (hsorted : R.Sorted xs)
    (hask : ∀ x ∈ xs, (ask x).Yields F fun answer => (answer = true → p x) ∧ (answer = false → q x))
    (hdown : ∀ {x y}, R.upTo x y → p y → p x) (hup : ∀ {x y}, R.upTo x y → q x → q y) :
    Asks F (fun i => ∃ x, xs[i]? = some x ∧ p x) (fun i => ∀ x, xs[i]? = some x → q x)
      fun i => match xs.toArray[i]? with
        | some x => ask x
        | none => pure false where
  answer i := by
    rw [List.getElem?_toArray]
    cases hx : xs[i]? with
    | none => exact yields_pure ⟨nofun, fun _ _ => nofun⟩
    | some x =>
      refine (hask x (List.mem_of_getElem? hx)).imp fun answer h => ⟨fun hyes => ?_, fun hno => ?_⟩
      · exact ⟨x, rfl, h.1 hyes⟩
      · rintro y ⟨⟩
        exact h.2 hno
  down {i j} hij := by
    rintro ⟨y, hy, hp⟩
    obtain ⟨hj, -⟩ := List.getElem?_eq_some_iff.mp hy
    have hx := List.getElem?_eq_getElem (Nat.lt_of_le_of_lt hij hj)
    rcases hsorted.eq_or_upTo hij hx hy with rfl | hxy
    · exact ⟨_, hx, hp⟩
    · exact ⟨_, hx, hdown hxy hp⟩
  up {i j} hij hq y hy := by
    obtain ⟨hj, -⟩ := List.getElem?_eq_some_iff.mp hy
    have hx := List.getElem?_eq_getElem (Nat.lt_of_le_of_lt hij hj)
    rcases hsorted.eq_or_upTo hij hx hy with rfl | hxy
    · exact hq _ hx
    · exact hup hxy (hq _ hx)

end

section

variable (h : Compares F S R less) {key : α} (hkey : S key) {xs : List α} (hsorted : R.Sorted xs)
  (hxs : ∀ x ∈ xs, S x)

include h hkey hsorted hxs

theorem asks_behind : Asks F (fun i => ∃ x, xs[i]? = some x ∧ R.upTo x key)
    (fun i => ∀ x, xs[i]? = some x → R.less key x)
    fun i => match xs.toArray[i]? with
      | some x => do return !(← less key x)
      | none => pure false := by
  refine asks_members hsorted (fun x hx => ?_) R.upTo_trans fun hxy hx => R.less_of_less_upTo hx hxy
  refine .bind (h key x hkey (hxs x hx)) fun answer hanswer => yields_pure ?_
  cases answer with
  | true => exact ⟨nofun, fun _ => hanswer⟩
  | false => exact ⟨fun _ => hanswer, nofun⟩

theorem asks_before : Asks F (fun i => ∃ x, xs[i]? = some x ∧ R.less x key)
    (fun i => ∀ x, xs[i]? = some x → R.upTo key x)
    fun i => match xs.toArray[i]? with
      | some x => less x key
      | none => pure false := by
  refine asks_members hsorted (fun x hx => ?_) R.less_of_upTo_less fun hxy hx => R.upTo_trans hx hxy
  refine (h x key (hxs x hx) hkey).imp fun answer hanswer => ?_
  cases answer with
  | true => exact ⟨fun _ => hanswer, nofun⟩
  | false => exact ⟨nofun, fun _ => hanswer⟩

theorem yields_gallopRight {hint : Nat} (hhint : hint ≤ xs.length) :
    (gallopRight less key xs.toArray hint).Yields F (R.Behind key xs) :=
  (yields_gallop (asks_behind h hkey hsorted hxs) hhint fun i hi x hx => by
    rw [List.getElem?_eq_none hi] at hx
    cases hx).imp fun _ hk => ⟨hk.forall_mem.1, hk.forall_mem.2⟩

theorem yields_gallopLeft {hint : Nat} (hhint : hint ≤ xs.length) :
    (gallopLeft less key xs.toArray hint).Yields F (R.Before key xs) :=
  (yields_gallop (asks_before h hkey hsorted hxs) hhint fun i hi x hx => by
    rw [List.getElem?_eq_none hi] at hx
    cases hx).imp fun _ hk => ⟨hk.forall_mem.1, hk.forall_mem.2⟩

theorem yields_insertionPoint :
    (insertionPoint less xs.toArray key (xs.length + 1) 0 xs.length).Yields F
      (R.Behind key xs) := by
  rw [insertionPoint_eq _ _ _ _ _ (Nat.le_of_eq List.size_toArray.symm)]
  refine (yields_bisect (asks_behind h hkey hsorted hxs) _ (by omega)
    (fun i hi => absurd hi (Nat.not_lt_zero i)) fun i hi x hx => ?_).imp
    fun _ hk => ⟨hk.forall_mem.1, hk.forall_mem.2⟩
  rw [List.getElem?_eq_none hi] at hx
  cases hx

end

theorem yields_insertAll (h : Compares F S R less) {run xs : List α} (hrun : R.Sorted run)
    (hrunS : ∀ x ∈ run, S x) (hxs : ∀ x ∈ xs, S x) :
    (insertAll less run.toArray xs).Yields F fun sorted => R.Sorts (run ++ xs) sorted.toList := by
  induction xs generalizing run with
  | nil => exact yields_pure (by simpa using .of_sorted hrun)
  | cons x xs ih =>
    obtain ⟨hx, hxs⟩ := List.forall_mem_cons.mp hxs
    refine .bind (yields_insertionPoint h hx hrun hrunS) fun k hk => ?_
    have hplaced := hk.sorts hrun
    have hnext : run.toArray.extract 0 k ++ #[x] ++ run.toArray.extract k run.length =
        (run.take k ++ x :: run.drop k).toArray := by
      simp [List.take_of_length_le (l := run.drop k)]
    have hmem : ∀ y ∈ run.take k ++ x :: run.drop k, S y := fun y hy => by
      rcases List.mem_append.mp (hplaced.mem.mp hy) with hy | hy
      · exact hrunS y hy
      · rwa [List.mem_singleton.mp hy]
    rw [List.size_toArray, hnext]
    refine (ih hplaced.sorted hmem hxs).imp fun sorted hsorted => hsorted.after ?_
    simpa using hplaced.rearranges.append_right xs

end Stepper.Builtin.Sort
