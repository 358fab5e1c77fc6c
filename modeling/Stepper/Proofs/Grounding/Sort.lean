import Stepper.Builtin.Sort
import Stepper.Proofs.Grounding.Action

/-!
Sorting is grounded if its comparison is: what is sorted holds nothing but what there was before.
-/
namespace Stepper.Builtin.Sort

open Machine Machine.Action

variable {α : Type} [Refers α] {n m : Horizon}

instance : Refers (Merged α) := ⟨fun s => refs s.members⟩

instance : Refers (Merging α) := ⟨fun s => refs s.left ++ (refs s.right ++ refs s.out)⟩

instance : Refers (Run α) := ⟨fun r => refs r.members⟩

instance : Refers (Pending α) := ⟨fun p => refs p.runs⟩

/-- A merged run refers to what its members refer to. -/
@[grind =] theorem known_merged {s : Merged α} : Known n s ↔ Known n s.members := .rfl

/-- Two runs that are being merged hold what is left of them and what has been put out. -/
theorem known_merging {s : Merging α} :
    Known n s ↔ Known n s.left ∧ Known n s.right ∧ Known n s.out :=
  List.forall_mem_append.trans (and_congr_right' List.forall_mem_append)

theorem known_mk {left right out : List α} {leftWins rightWins patience : Nat} :
    Known n (Merging.mk left right out leftWins rightWins patience) ↔
      Known n left ∧ Known n right ∧ Known n out := known_merging

@[grind =] theorem known_run {r : Run α} : Known n r ↔ Known n r.members := .rfl

/-- The pending runs refer to what their members refer to. -/
@[grind =] theorem known_pending {p : Pending α} : Known n p ↔ Known n p.runs := .rfl

/-- A comparison that is grounded where so many objects are known. -/
def Orders (n : Horizon) (less : α → α → Action Bool) : Prop :=
  ∀ m a b, Later n m → Known m a → Known m b → (less a b).Grounded m

variable {less : α → α → Action Bool}

/-- A comparison that may be asked now may be asked later. -/
theorem Orders.mono (h : Orders n less) (hm : Later n m) : Orders m less :=
  fun k a b hk => h k a b (hm.trans hk)

theorem Orders.grounded (h : Orders n less) {a b : α} (ha : Known n a)
    (hb : Known n b) : (less a b).Grounded n := h n a b (.refl n) ha hb

section

variable (h : Orders n less)

include h

/-- A run is measured by comparing neighbours. -/
theorem grounded_runLength (descending : Bool) {x : α} (hx : Known n x) {ys : List α}
    (hys : Known n ys) : (runLength less descending x ys).Grounded n := by
  induction ys generalizing n x with
  | nil => exact grounded_pure (known_plain _ _)
  | cons y ys ih =>
    obtain ⟨hy, hys⟩ := known_cons.mp hys
    refine .bind (h.grounded hy hx) fun m answer hm _ =>
      grounded_ite (fun _ => ?_) fun _ => grounded_pure (known_plain _ _)
    exact .bind (ih (h.mono hm) (hy.mono hm) (hys.mono hm)) fun m k _ _ =>
      grounded_pure (known_plain _ _)

theorem grounded_firstRun {xs : List α} (hxs : Known n xs) : (firstRun less xs).Grounded n := by
  match xs with
  | [] => exact grounded_pure (known_pair.mpr ⟨hxs, hxs⟩)
  | [x] => exact grounded_pure (known_pair.mpr ⟨hxs, known_nil⟩)
  | x :: y :: ys =>
    obtain ⟨hx, hys⟩ := known_cons.mp hxs
    obtain ⟨hy, hys⟩ := known_cons.mp hys
    refine .bind (h.grounded hy hx) fun m descending hm _ =>
      .bind (grounded_runLength (h.mono hm) descending (hy.mono hm) (hys.mono hm)) fun m' k hm' _ =>
      grounded_pure ?_
    have hxs := hxs.mono (hm.trans hm')
    refine known_pair.mpr ⟨known_ite (fun _ => ?_) fun _ => known_take hxs _, known_drop hxs _⟩
    exact known_reverse.mpr (known_take hxs _)

/-- A place is searched by comparing with members of the run. -/
theorem grounded_insertionPoint {xs : Array α} (hxs : Known n xs) {pivot : α}
    (hpivot : Known n pivot) (fuel lo hi : Nat) :
    (insertionPoint less xs pivot fuel lo hi).Grounded n := by
  induction fuel generalizing n lo hi with
  | zero => exact grounded_pure (known_plain _ _)
  | succ fuel ih =>
    refine grounded_ite (fun _ => ?_) fun _ => grounded_pure (known_plain _ _)
    extract_lets mid
    cases hx : xs[mid]? with
    | none => exact grounded_pure (known_plain _ _)
    | some x =>
      have hx : Known n x := known_option.mp (known_getElem? hxs mid) x hx
      refine .bind (h.grounded hpivot hx) fun m answer hm _ => ?_
      have ih := ih (h.mono hm) (hxs.mono hm) (hpivot.mono hm)
      exact grounded_ite (fun _ => ih _ _) fun _ => ih _ _

/-- Members are inserted at places that comparisons find. -/
theorem grounded_insertAll {run : Array α} (hrun : Known n run) {xs : List α}
    (hxs : Known n xs) : (insertAll less run xs).Grounded n := by
  induction xs generalizing n run with
  | nil => exact grounded_pure hrun
  | cons x xs ih =>
    obtain ⟨hx, hxs⟩ := known_cons.mp hxs
    refine .bind (grounded_insertionPoint h hrun hx _ _ _) fun m i hm _ =>
      ih (h.mono hm) ?_ (hxs.mono hm)
    have hrun := hrun.mono hm
    have hx : Known m #[x] := known_cons.mpr ⟨hx.mono hm, known_nil⟩
    exact known_array_append.mpr
      ⟨known_array_append.mpr ⟨known_extract hrun _ _, hx⟩, known_extract hrun _ _⟩

omit h [Refers α] in
/-- The bounds of a search grow by asking what is grounded. -/
theorem grounded_grow {goesOn : Nat → Action Bool}
    (h : ∀ m k, Later n m → (goesOn k).Grounded m) (bound fuel last step : Nat) :
    (grow goesOn bound fuel last step).Grounded n := by
  induction fuel generalizing n last step with
  | zero => exact grounded_pure (known_plain _ _)
  | succ fuel ih =>
    refine grounded_ite (fun _ => ?_) fun _ => grounded_pure (known_plain _ _)
    refine .bind (h n step (.refl n)) fun m answer hm _ =>
      grounded_ite (fun _ => ?_) fun _ => grounded_pure (known_plain _ _)
    exact ih (fun k i hk => h k i (hm.trans hk)) _ _

omit h [Refers α] in
theorem grounded_bisect {isBehind : Nat → Action Bool}
    (h : ∀ m k, Later n m → (isBehind k).Grounded m) (fuel lo hi : Nat) :
    (bisect isBehind fuel lo hi).Grounded n := by
  induction fuel generalizing n lo hi with
  | zero => exact grounded_pure (known_plain _ _)
  | succ fuel ih =>
    refine grounded_ite (fun _ => ?_) fun _ => grounded_pure (known_plain _ _)
    extract_lets mid
    refine .bind (h n mid (.refl n)) fun m answer hm _ => ?_
    have ih := ih fun k i hk => h k i (hm.trans hk)
    exact grounded_ite (fun _ => ih _ _) fun _ => ih _ _

omit h [Refers α] in
/-- A search from a hint asks what is grounded. -/
theorem grounded_gallop {isBefore : Nat → Action Bool}
    (h : ∀ m k, Later n m → (isBefore k).Grounded m) (length hint : Nat) :
    (gallop isBefore length hint).Grounded n := by
  refine .bind (h n hint (.refl n)) fun m answer hm _ =>
    grounded_ite (fun _ => ?_) fun _ => ?_
  · refine .bind (grounded_grow (fun k i hk => h k _ (hm.trans hk)) _ _ _ _) fun k steps hk _ => ?_
    exact grounded_bisect (fun l i hl => h l i ((hm.trans hk).trans hl)) _ _ _
  · refine .bind (grounded_grow (fun k i hk => ?_) _ _ _ _) fun k steps hk _ => ?_
    · exact .bind (h k _ (hm.trans hk)) fun _ _ _ _ => grounded_pure (known_plain _ _)
    · exact grounded_bisect (fun l i hl => h l i ((hm.trans hk).trans hl)) _ _ _

/-- A key is searched by comparing it with members. -/
theorem grounded_gallopLeft {key : α} (hkey : Known n key) {xs : Array α} (hxs : Known n xs)
    (hint : Nat) : (gallopLeft less key xs hint).Grounded n := by
  refine grounded_gallop (fun m i hm => ?_) xs.size hint
  cases hx : xs[i]? with
  | none => exact grounded_pure (known_plain _ _)
  | some x =>
    have hx : Known m x := (known_option.mp (known_getElem? hxs i) x hx).mono hm
    exact (h.mono hm).grounded hx (hkey.mono hm)

theorem grounded_gallopRight {key : α} (hkey : Known n key) {xs : Array α} (hxs : Known n xs)
    (hint : Nat) : (gallopRight less key xs hint).Grounded n := by
  refine grounded_gallop (fun m i hm => ?_) xs.size hint
  cases hx : xs[i]? with
  | none => exact grounded_pure (known_plain _ _)
  | some x =>
    have hx : Known m x := (known_option.mp (known_getElem? hxs i) x hx).mono hm
    exact .bind ((h.mono hm).grounded (hkey.mono hm) hx) fun _ _ _ _ =>
      grounded_pure (known_plain _ _)

omit h in
theorem known_frontEnd? {s : Merging α} (hs : Known n s) : Known n s.frontEnd? := by
  obtain ⟨left, right, out, leftWins, rightWins, patience⟩ := s
  obtain ⟨hleft, hright, hout⟩ := known_mk.mp hs
  have hout : Known n out.reverse := known_reverse.mpr hout
  cases right with
  | nil => exact known_append.mpr ⟨hout, hleft⟩
  | cons y right =>
    cases left with
    | nil => exact known_append.mpr ⟨hout, hright⟩
    | cons x left =>
      cases left with
      | nil => exact known_append.mpr ⟨known_append.mpr ⟨hout, hright⟩, hleft⟩
      | cons => exact known_none

omit h in
theorem known_backEnd? {s : Merging α} (hs : Known n s) : Known n s.backEnd? := by
  obtain ⟨left, right, out, leftWins, rightWins, patience⟩ := s
  obtain ⟨hleft, hright, hout⟩ := known_mk.mp hs
  cases left with
  | nil => exact known_append.mpr ⟨known_reverse.mpr hright, hout⟩
  | cons x left =>
    have hleft := known_append.mpr ⟨known_reverse.mpr hleft, hout⟩
    cases right with
    | nil => exact hleft
    | cons y right =>
      cases right with
      | nil => exact known_cons.mpr ⟨(known_cons.mp hright).1, hleft⟩
      | cons => exact known_none

omit h in
/-- Members of one side move to what is merged. -/
theorem known_moved {xs out : List α} (hxs : Known n xs) (hout : Known n out) (k : Nat) :
    Known n (xs.drop k) ∧ Known n ((xs.take k).reverse ++ out) :=
  ⟨known_drop hxs k, known_append.mpr ⟨known_reverse.mpr (known_take hxs k), hout⟩⟩

/-- One comparison decides which run gives its first member. -/
theorem grounded_stepFront {s : Merging α} (hs : Known n s) : (stepFront less s).Grounded n := by
  obtain ⟨left, right, out, leftWins, rightWins, patience⟩ := s
  cases left with
  | nil => exact grounded_pure hs
  | cons x left =>
    cases right with
    | nil => exact grounded_pure hs
    | cons y right =>
      obtain ⟨hleft, hright, hout⟩ := known_mk.mp hs
      obtain ⟨hx, hleft'⟩ := known_cons.mp hleft
      obtain ⟨hy, hright'⟩ := known_cons.mp hright
      refine .bind (h.grounded hy hx) fun m answer hm _ =>
        grounded_ite (fun _ => grounded_pure (Known.mono ?_ hm))
          fun _ => grounded_pure (Known.mono ?_ hm)
      · exact known_merging.mpr ⟨hleft, hright', known_cons.mpr ⟨hy, hout⟩⟩
      · exact known_merging.mpr ⟨hleft', hright, known_cons.mpr ⟨hx, hout⟩⟩

/-- Members that go out together come from one of the runs. -/
theorem grounded_searchFront {s : Merging α} (hs : Known n s) :
    (searchFront less s).Grounded n := by
  obtain ⟨left, right, out, leftWins, rightWins, patience⟩ := s
  obtain ⟨hleft, hright, hout⟩ := known_mk.mp hs
  cases right with
  | nil => exact grounded_pure hs
  | cons y right =>
    obtain ⟨hy, hright'⟩ := known_cons.mp hright
    refine .bind (grounded_gallopRight h hy (known_toArray.mpr hleft) 0) fun m k hm _ => ?_
    obtain ⟨hleft, hout⟩ := known_moved (hleft.mono hm) (hout.mono hm) k
    have hright := hright.mono hm
    extract_lets s early
    have hearly : Known m early :=
      known_ite (fun _ => known_none) fun _ => known_frontEnd? (known_mk.mpr ⟨hleft, hright, hout⟩)
    have hleft : Known m s.left := hleft
    have hout : Known m s.out := hout
    clear_value early s
    cases early with
    | some e => exact grounded_pure hearly
    | none =>
      have hright := hright'.mono hm
      have hout := known_cons.mpr ⟨hy.mono hm, hout⟩
      have hs := And.intro hleft (And.intro hright hout)
      cases hl : s.left with
      | nil => exact grounded_pure (known_merging.mpr hs)
      | cons x left =>
        have hxs : Known m (x :: left) := hl ▸ hleft
        obtain ⟨hx, hleft⟩ := known_cons.mp hxs
        refine grounded_ite (fun _ => grounded_pure (known_merging.mpr hs)) fun _ => ?_
        refine .bind (grounded_gallopLeft (h.mono hm) hx (known_toArray.mpr hright) 0)
          fun m k hm _ => ?_
        obtain ⟨hright, hout⟩ := known_moved (hright.mono hm) (hout.mono hm) k
        refine grounded_ite (fun _ => grounded_pure ?_) fun _ => grounded_pure ?_
        · exact known_merging.mpr ⟨hxs.mono hm, hright, hout⟩
        · exact known_merging.mpr
            ⟨hleft.mono hm, hright, known_cons.mpr ⟨hx.mono hm, hout⟩⟩

/-- Runs are merged from the front with nothing but their members, by induction on the rounds. -/
theorem grounded_mergeFront (fuel : Nat) (searching : Bool) {s : Merging α}
    (hs : Known n s) : (mergeFront less fuel searching s).Grounded n := by
  induction fuel generalizing n searching s with
  | zero =>
    obtain ⟨hleft, hright, hout⟩ := known_merging.mp hs
    exact grounded_pure (known_append.mpr ⟨known_append.mpr ⟨known_reverse.mpr hout, hleft⟩, hright⟩)
  | succ fuel ih =>
    unfold mergeFront
    have hend := known_frontEnd? hs
    cases he : s.frontEnd? with
    | some e => exact grounded_pure (known_option.mp hend e he)
    | none =>
      refine grounded_ite (fun _ => ?_) fun _ => ?_
      · refine .bind (grounded_searchFront h hs) fun m found hm hfound => ?_
        cases found with
        | inl e => exact grounded_pure hfound
        | inr s =>
          have hs := known_inr.mp hfound
          dsimp only
          have hend := known_frontEnd? hs
          cases he : s.frontEnd? with
          | some e => exact grounded_pure (known_option.mp hend e he)
          | none => exact grounded_ite (fun _ => ih (h.mono hm) _ hs) fun _ => ih (h.mono hm) _ hs
      · refine .bind (grounded_stepFront h hs) fun m s hm hs => ?_
        have hend := known_frontEnd? hs
        cases he : s.frontEnd? with
        | some e => exact grounded_pure (known_option.mp hend e he)
        | none => exact grounded_ite (fun _ => ih (h.mono hm) _ hs) fun _ => ih (h.mono hm) _ hs

/-- A merge from the front puts out members of both runs. -/
theorem grounded_mergeLow (patience : Nat) {left right : List α} (hleft : Known n left)
    (hright : Known n right) : (mergeLow less patience left right).Grounded n := by
  cases right with
  | nil => exact grounded_pure hleft
  | cons y right =>
    obtain ⟨hy, hright⟩ := known_cons.mp hright
    exact grounded_mergeFront h _ _
      (known_merging.mpr ⟨hleft, hright, known_cons.mpr ⟨hy, known_nil⟩⟩)

theorem grounded_stepBack {s : Merging α} (hs : Known n s) : (stepBack less s).Grounded n := by
  obtain ⟨left, right, out, leftWins, rightWins, patience⟩ := s
  cases left with
  | nil => exact grounded_pure hs
  | cons x left =>
    cases right with
    | nil => exact grounded_pure hs
    | cons y right =>
      obtain ⟨hleft, hright, hout⟩ := known_mk.mp hs
      obtain ⟨hx, hleft'⟩ := known_cons.mp hleft
      obtain ⟨hy, hright'⟩ := known_cons.mp hright
      refine .bind (h.grounded hy hx) fun m answer hm _ =>
        grounded_ite (fun _ => grounded_pure (Known.mono ?_ hm))
          fun _ => grounded_pure (Known.mono ?_ hm)
      · exact known_merging.mpr ⟨hleft', hright, known_cons.mpr ⟨hx, hout⟩⟩
      · exact known_merging.mpr ⟨hleft, hright', known_cons.mpr ⟨hy, hout⟩⟩

theorem grounded_searchBack {s : Merging α} (hs : Known n s) : (searchBack less s).Grounded n := by
  obtain ⟨left, right, out, leftWins, rightWins, patience⟩ := s
  obtain ⟨hleft, hright, hout⟩ := known_mk.mp hs
  cases right with
  | nil => exact grounded_pure hs
  | cons y right =>
    obtain ⟨hy, hright'⟩ := known_cons.mp hright
    have hreversed := known_toArray.mpr (known_reverse.mpr hleft)
    refine .bind (grounded_gallopRight h hy hreversed _) fun m k hm _ => ?_
    obtain ⟨hleft, hout⟩ := known_moved (hleft.mono hm) (hout.mono hm) (left.length - k)
    have hright := hright.mono hm
    refine grounded_ite (fun _ => grounded_pure (known_merging.mpr ⟨hleft, hright, hout⟩))
      fun _ => ?_
    extract_lets s
    have hs : Known m s :=
      known_merging.mpr ⟨hleft, hright'.mono hm, known_cons.mpr ⟨hy.mono hm, hout⟩⟩
    clear_value s
    obtain ⟨hleft, hright, hout⟩ := known_merging.mp hs
    cases hl : s.left with
    | nil => exact grounded_pure hs
    | cons x left =>
      have hxs : Known m (x :: left) := hl ▸ hleft
      obtain ⟨hx, hleft⟩ := known_cons.mp hxs
      have hreversed := known_toArray.mpr (known_reverse.mpr hright)
      refine grounded_ite (fun _ => grounded_pure hs) fun _ => ?_
      refine .bind (grounded_gallopLeft (h.mono hm) hx hreversed _) fun m k hm _ => ?_
      obtain ⟨hright, hout⟩ := known_moved (hright.mono hm) (hout.mono hm) (s.right.length - k)
      extract_lets k t early
      have hearly : Known m early := known_ite (fun _ => known_none) fun _ =>
        known_backEnd? (known_merging.mpr ⟨hxs.mono hm, hright, hout⟩)
      clear_value early
      cases early with
      | some e => exact grounded_pure hearly
      | none => exact grounded_pure (known_merging.mpr
          ⟨hleft.mono hm, hright, known_cons.mpr ⟨hx.mono hm, hout⟩⟩)

/-- Runs are merged from the back with nothing but their members, by induction on the rounds. -/
theorem grounded_mergeBack (fuel : Nat) (searching : Bool) {s : Merging α}
    (hs : Known n s) : (mergeBack less fuel searching s).Grounded n := by
  induction fuel generalizing n searching s with
  | zero =>
    obtain ⟨hleft, hright, hout⟩ := known_merging.mp hs
    exact grounded_pure (known_append.mpr
      ⟨known_append.mpr ⟨known_reverse.mpr hleft, known_reverse.mpr hright⟩, hout⟩)
  | succ fuel ih =>
    unfold mergeBack
    have hend := known_backEnd? hs
    cases he : s.backEnd? with
    | some e => exact grounded_pure (known_option.mp hend e he)
    | none =>
      refine grounded_ite (fun _ => ?_) fun _ => ?_
      · refine .bind (grounded_searchBack h hs) fun m found hm hfound => ?_
        cases found with
        | inl e => exact grounded_pure hfound
        | inr s =>
          have hs := known_inr.mp hfound
          dsimp only
          have hend := known_backEnd? hs
          cases he : s.backEnd? with
          | some e => exact grounded_pure (known_option.mp hend e he)
          | none => exact grounded_ite (fun _ => ih (h.mono hm) _ hs) fun _ => ih (h.mono hm) _ hs
      · refine .bind (grounded_stepBack h hs) fun m s hm hs => ?_
        have hend := known_backEnd? hs
        cases he : s.backEnd? with
        | some e => exact grounded_pure (known_option.mp hend e he)
        | none => exact grounded_ite (fun _ => ih (h.mono hm) _ hs) fun _ => ih (h.mono hm) _ hs

theorem grounded_mergeHigh (patience : Nat) {left right : List α} (hleft : Known n left)
    (hright : Known n right) : (mergeHigh less patience left right).Grounded n := by
  have hreversed : Known n left.reverse := known_reverse.mpr hleft
  unfold mergeHigh
  cases hl : left.reverse with
  | nil => exact grounded_pure hright
  | cons x left =>
    obtain ⟨hx, hleft⟩ := known_cons.mp (hl ▸ hreversed)
    exact grounded_mergeBack h _ _ (known_merging.mpr
      ⟨hleft, known_reverse.mpr hright, known_cons.mpr ⟨hx, known_nil⟩⟩)

/-- Merged runs hold members of both, from whichever end they are merged. -/
theorem grounded_mergeRuns (patience : Nat) {left right : List α} (hleft : Known n left)
    (hright : Known n right) : (mergeRuns less patience left right).Grounded n := by
  cases right with
  | nil => exact grounded_pure hleft
  | cons y right =>
    have hy := (known_cons.mp hright).1
    refine .bind (grounded_gallopRight h hy (known_toArray.mpr hleft) 0) fun m k hm _ => ?_
    extract_lets head left
    have hhead : Known m head := known_take (hleft.mono hm) k
    have hleft : Known m left := known_drop (hleft.mono hm) k
    have hright := hright.mono hm
    have h := h.mono hm
    clear_value head left
    cases hx : left.getLast? with
    | none => exact grounded_pure (known_append.mpr ⟨hhead, hright⟩)
    | some x =>
      have hx : Known m x := known_option.mp (known_getLast? hleft) x hx
      refine .bind (grounded_gallopLeft h hx (known_toArray.mpr hright) _) fun m k hm _ => ?_
      have htail := known_drop (hright.mono hm) k
      have hright := known_take (hright.mono hm) k
      have hhead := hhead.mono hm
      have hleft := hleft.mono hm
      have h := h.mono hm
      refine grounded_ite (fun _ => grounded_pure ?_) fun _ => ?_
      · exact known_append.mpr ⟨known_append.mpr ⟨hhead, hleft⟩, htail⟩
      · refine grounded_ite (fun _ => ?_) fun _ => ?_
        · exact .bind (grounded_mergeLow h _ hleft hright) fun m merged hm hmerged => grounded_pure
            (known_append.mpr ⟨known_append.mpr ⟨hhead.mono hm, hmerged⟩, htail.mono hm⟩)
        · exact .bind (grounded_mergeHigh h _ hleft hright) fun m merged hm hmerged => grounded_pure
            (known_append.mpr ⟨known_append.mpr ⟨hhead.mono hm, hmerged⟩, htail.mono hm⟩)

/-- Pending runs are merged while the topmost lie too close. -/
theorem grounded_collapseAbove (power fuel : Nat) {p : Pending α} (hp : Known n p) :
    (collapseAbove less power fuel p).Grounded n := by
  induction fuel generalizing n p with
  | zero => exact grounded_pure hp
  | succ fuel ih =>
    obtain ⟨runs, patience⟩ := p
    match runs with
    | [] => exact grounded_pure hp
    | [r] => exact grounded_pure hp
    | r :: q :: rs =>
      obtain ⟨hr, hrs⟩ := known_cons.mp (known_pending.mp hp)
      obtain ⟨hq, hrs⟩ := known_cons.mp hrs
      refine grounded_ite (fun _ => ?_) fun _ => grounded_pure hp
      exact .bind (grounded_mergeRuns h _ hq hr) fun m merged hm hmerged =>
        ih (h.mono hm) (known_cons.mpr ⟨hmerged, hrs.mono hm⟩)

/-- A run is pushed after the ones above its power are merged. -/
theorem grounded_pushRun (total : Nat) {p : Pending α} (hp : Known n p) (start : Nat)
    {run : List α} (hrun : Known n run) : (pushRun less total p start run).Grounded n := by
  obtain ⟨runs, patience⟩ := p
  cases runs with
  | nil => exact grounded_pure (known_cons.mpr ⟨hrun, known_nil⟩)
  | cons r rs =>
    refine .bind (grounded_collapseAbove h _ _ hp) fun m q hm hq =>
      grounded_pure (known_cons.mpr ⟨hrun.mono hm, ?_⟩)
    obtain ⟨runs, patience⟩ := q
    cases runs with
    | nil => exact known_nil
    | cons r rs => exact hq

/-- All pending runs are merged into one. -/
theorem grounded_collapseAll (fuel : Nat) {p : Pending α} (hp : Known n p) :
    (collapseAll less fuel p).Grounded n := by
  induction fuel generalizing n p with
  | zero =>
    refine grounded_pure (known_flatMap fun r hr => ?_)
    exact known_run.mp (known_list.mp hp r (List.mem_reverse.mp hr))
  | succ fuel ih =>
    obtain ⟨runs, patience⟩ := p
    match runs with
    | [] => exact grounded_pure known_nil
    | [r] => exact grounded_pure (known_cons.mp (known_pending.mp hp)).1
    | [r, q] =>
      obtain ⟨hr, hrs⟩ := known_cons.mp (known_pending.mp hp)
      exact .bind (grounded_mergeRuns h _ (known_cons.mp hrs).1 hr) fun m merged _ hmerged =>
        grounded_pure hmerged
    | r :: q :: t :: rs =>
      obtain ⟨hr, hrs⟩ := known_cons.mp (known_pending.mp hp)
      obtain ⟨hq, hrs⟩ := known_cons.mp hrs
      obtain ⟨ht, hrs'⟩ := known_cons.mp hrs
      refine grounded_ite (fun _ => ?_) fun _ => ?_
      · exact .bind (grounded_mergeRuns h _ ht hq) fun m merged hm hmerged => ih (h.mono hm)
          (known_cons.mpr ⟨hr.mono hm, known_cons.mpr ⟨hmerged, hrs'.mono hm⟩⟩)
      · exact .bind (grounded_mergeRuns h _ hq hr) fun m merged hm hmerged => ih (h.mono hm)
          (known_cons.mpr ⟨hmerged, hrs.mono hm⟩)

/-- A list is cut into runs, and each is pushed. -/
theorem grounded_sortRuns (total least fuel start : Nat) {xs : List α}
    (hxs : Known n xs) {p : Pending α} (hp : Known n p) :
    (sortRuns less total least fuel start xs p).Grounded n := by
  induction fuel generalizing n start xs p with
  | zero => exact grounded_pure hp
  | succ fuel ih =>
    cases xs with
    | nil => exact grounded_pure hp
    | cons x xs =>
      refine .bind (grounded_firstRun h hxs) fun m found hm hfound => ?_
      obtain ⟨run, rest⟩ := found
      obtain ⟨hrun, hrest⟩ := known_pair.mp hfound
      have h := h.mono hm
      have hp := hp.mono hm
      have hpush (k : Horizon) (hk : Later m k) (run : List α) (hrun : Known k run) (more : Nat) :=
        Grounded.bind (grounded_pushRun (h.mono hk) total (hp.mono hk) start hrun) fun l p hl hp =>
          ih (h.mono (hk.trans hl)) (start + run.length)
            (known_drop (hrest.mono (hk.trans hl)) more) hp
      refine grounded_ite (fun _ => ?_) fun _ => hpush m (.refl m) run hrun _
      exact .bind (grounded_insertAll h (known_toArray.mpr hrun) (known_take hrest _))
        fun k run hk hrun => hpush k hk _ (known_toList.mpr hrun) _

/-- A sorted list holds members of the list it was sorted from. -/
@[grind ←] theorem grounded_sort {xs : List α} (hxs : Known n xs) : (sort less xs).Grounded n :=
  grounded_ite (fun _ => grounded_pure hxs) fun _ =>
    .bind (grounded_sortRuns h _ _ _ _ hxs known_nil) fun _ _ hm hp =>
      grounded_collapseAll (h.mono hm) _ hp

end

end Stepper.Builtin.Sort
