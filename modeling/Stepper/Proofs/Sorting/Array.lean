import Stepper.Execution.Run
import Stepper.Proofs.Collecting
import Stepper.Proofs.Sorting.Runs

/-!
The sort of an array. Its elements come out as they went in, but in another order, with those that
are undefined behind all others, whatever the comparisons say. If they say what a total preorder
says, the elements are in that order, and equal ones as they were. The array is changed at once at
the end: where a comparison is cut short it is as it was.
-/
namespace Stepper

namespace Text

theorem compare_swap (s t : Text) : (compare s t).swap = compare t s := by
  fun_induction compare s t with
  | case1 => rfl
  | case2 => rfl
  | case3 => rfl
  | case4 a s b t hlt => simp [compare, hlt, Nat.lt_asymm hlt]
  | case5 a s b t hge hlt => simp [compare, hlt]
  | case6 a s b t hge hle ih => simp [compare, hge, hle, ih]

theorem compare_trans {s t u : Text} (hst : compare s t ≠ .gt) (htu : compare t u ≠ .gt) :
    compare s u ≠ .gt := by
  induction s generalizing t u with
  | nil => cases u <;> simp [compare]
  | cons a s ih =>
    cases t with
    | nil => exact absurd rfl hst
    | cons b t =>
      cases u with
      | nil => exact absurd rfl htu
      | cons c u =>
        have := @ih t u
        simp only [compare] at hst htu ⊢
        grind

end Text
end Stepper

namespace Stepper.Builtin

open Machine Machine.Action Stepper.Builtin.Sort

/-- What a comparator says by a number; NaN counts as zero. -/
def signOf (x : Float) : Ordering :=
  if x.isNaN then .eq else if x < 0 then .lt else if 0 < x then .gt else .eq

/-- How two elements compare by a comparator, or by their texts if there is none. -/
def compareValues (comparator a b : Value) : Action Ordering := do
  if comparator.isUndefined then
    let s ← toText a
    let t ← toText b
    return Text.compare s t
  else
    return signOf (← toNumber (← call comparator .undefined [a, b]))

theorem signOf_eq_lt (x : Float) : (signOf x == .lt) = decide (x < 0) := by
  unfold signOf
  cases hnan : x.isNaN with
  | true =>
    obtain rfl := (Binary64.isNaN_iff x).mp hnan
    decide
  | false => by_cases hlt : x < 0 <;> by_cases hgt : 0 < x <;> simp [hlt, hgt]

/-- A sort asks whether one element compares as less than another. -/
theorem goesBefore_eq (comparator a b : Value) : goesBefore comparator a b =
    compareValues comparator a b >>= fun o => pure (o == .lt) := by
  unfold goesBefore compareValues
  split
  · simp only [Action.bind_assoc]
    rfl
  · simp only [Action.bind_assoc]
    refine congrArg (_ >>= ·) (funext fun v => congrArg (_ >>= ·) (funext fun x => ?_))
    exact congrArg (fun answer => (pure answer : Action Bool)) (signOf_eq_lt x).symm

/-- A total preorder on these members. -/
structure Preorders {α : Type} (xs : List α) (le : α → α → Bool) : Prop where
  total : ∀ a ∈ xs, ∀ b ∈ xs, le a b = true ∨ le b a = true
  trans : ∀ a ∈ xs, ∀ b ∈ xs, ∀ c ∈ xs, le a b = true → le b c = true → le a c = true

/-- The ranking of these members by a total preorder on them. Others, which no one asks about, go in
front of them. -/
def Preorders.ranking {α : Type} {xs : List α} {le : α → α → Bool} (h : Preorders xs le) :
    Ranking α :=
  .ofPreorder (fun a b => a ∈ xs → b ∈ xs ∧ le a b = true)
    (fun a b => by
      by_cases ha : a ∈ xs
      · by_cases hb : b ∈ xs
        · exact (h.total a ha b hb).imp (fun hab _ => ⟨hb, hab⟩) fun hba _ => ⟨ha, hba⟩
        · exact .inr fun hb' => absurd hb' hb
      · exact .inl fun ha' => absurd ha' ha)
    fun a b c hab hbc ha => by
      obtain ⟨hb, hab⟩ := hab ha
      obtain ⟨hc, hbc⟩ := hbc hb
      exact ⟨hc, h.trans a ha b hb c hc hab hbc⟩

/-- The members in order, those that are equal as they were before. -/
structure StablySorted {α : Type} (le : α → α → Bool) (xs ys : List α) : Prop where
  perm : ys.Perm xs
  sorted : ys.Pairwise fun a b => le a b = true
  stable : ∀ a ∈ xs, (ys.filter fun b => le a b && le b a) = xs.filter fun b => le a b && le b a

theorem Preorders.stablySorted {α : Type} {xs ys : List α} {le : α → α → Bool}
    (h : Preorders xs le) (hys : h.ranking.Sorts xs ys) : StablySorted le xs ys where
  perm := hys.rearranges.perm.symm
  sorted := hys.sorted.imp_of_mem fun ha _ hab => (hab (hys.mem.mp ha)).2
  stable a ha := by
    refine hys.rearranges.filter_eq fun b hb c hc hab hac hless => hless fun _ => ⟨hc, ?_⟩
    rw [Bool.and_eq_true] at hab hac
    exact h.trans b hb a ha c hc hab.2 hac.1

end Stepper.Builtin

namespace Stepper.Machine.Object

/-- The elements that are not undefined. -/
def definedElements (o : Object) : List Value := o.elements.toList.filter fun v => !v.isUndefined

/-- These elements, and behind them as many undefined ones as there were. -/
def refilled (o : Object) (sorted : List Value) : Array Value :=
  (sorted ++ List.replicate (o.elements.toList.length - o.definedElements.length)
    Value.undefined).toArray

theorem elements_withElements {o : Object} (ho : o.isArray = true) (es : Array Value) :
    (o.withElements es).elements = es := by
  obtain ⟨proto, isError, frozen, properties, content⟩ := o
  cases content with
  | array es' => rfl
  | _ => cases ho

/-- The elements that are left out are all alike. -/
theorem perm_refilled {o : Object} {sorted : List Value} (h : sorted.Perm o.definedElements) :
    (o.refilled sorted).toList.Perm o.elements.toList := by
  have hundefined : (o.elements.toList.filter fun v => !!v.isUndefined) =
      List.replicate (o.elements.toList.length - o.definedElements.length) Value.undefined := by
    refine List.eq_replicate_iff.mpr ⟨?_, fun v hv => ?_⟩
    · have hsplit := (List.filter_append_perm (fun v : Value => !v.isUndefined)
        o.elements.toList).length_eq
      rw [List.length_append] at hsplit
      exact Nat.eq_sub_of_add_eq' hsplit
    · have hv := (List.mem_filter.mp hv).2
      cases v with
      | undefined => rfl
      | _ => cases hv
  rw [refilled, List.toList_toArray, ← hundefined]
  exact (h.append_right _).trans (List.filter_append_perm ..)

end Stepper.Machine.Object

namespace Stepper.Builtin

open Machine Machine.Action Stepper.Builtin.Sort

variable {F : Occasion} {r : Ref} {o : Object} {comparator : Value} {w : World}

/-- Comparisons of the elements of an array that do not touch it. -/
structure Untouching (F : Occasion) (r : Ref) (o : Object) (comparator : Value) : Prop where
  holds : ∀ v, F.holds v → v.heap.get r = o
  breaks : ∀ i v, F.breaks i v → v.heap.get r = o
  compares : ∀ a ∈ o.definedElements, ∀ b ∈ o.definedElements,
    (compareValues comparator a b).Yields F fun _ => True

/-- The comparisons say what a preorder says: one element is less than another exactly if that one
is not up to it. -/
def Follows (F : Occasion) (comparator : Value) (xs : List Value) (le : Value → Value → Bool) :
    Prop :=
  ∀ a ∈ xs, ∀ b ∈ xs,
    (compareValues comparator a b).Yields F fun answer => answer = .lt ↔ le b a = false

/-- The array has these elements, and undefined ones behind them; the state is otherwise one that a
comparison has left. -/
structure Reordered (F : Occasion) (r : Ref) (o : Object) (sorted : List Value) (v : World) :
    Prop where
  array : v.heap.get r = o.withElements (o.refilled sorted)
  perm : (v.heap.get r).elements.toList.Perm o.elements.toList
  defined : sorted.Perm o.definedElements
  rest : ∃ u, F.holds u ∧ v = { u with heap := u.heap.modify r fun _ => v.heap.get r }

theorem compares_any (h : Untouching F r o comparator) :
    Compares F (· ∈ o.definedElements) .any (goesBefore comparator) := by
  intro a b ha hb
  rw [goesBefore_eq]
  refine (h.compares a ha b hb).bind fun answer _ => yields_pure ?_
  cases answer == .lt <;> trivial

theorem compares_preorder {le : Value → Value → Bool} {xs : List Value} (hle : Preorders xs le)
    (h : Follows F comparator xs le) : Compares F (· ∈ xs) hle.ranking (goesBefore comparator) := by
  intro a b ha hb
  rw [goesBefore_eq]
  refine (h a ha b hb).bind fun answer hanswer => yields_pure ?_
  cases hlt : answer == .lt with
  | true =>
    have hba := hanswer.mp (by simpa using hlt)
    exact fun hup => absurd (hup hb).2 (by simp [hba])
  | false =>
    have hba : le b a ≠ false := fun hba => absurd (hanswer.mpr hba) (by simpa using hlt)
    exact fun _ => ⟨ha, by simpa using hba⟩

theorem lt_of_isArray (harray : (w.heap.get r).isArray = true) :
    r.index < w.heap.objects.size := by
  refine Nat.lt_of_not_le fun hge => ?_
  have hget : w.heap.get r = {} := by
    simp [Heap.get, Array.getD_eq_getD_getElem?, Array.getElem?_eq_none hge]
  rw [hget] at harray
  cases harray

/-- Elements put in place of those of an array. -/
theorem reordered_setElements {u : World} (hu : F.holds u) (hr : u.heap.get r = o)
    (harray : o.isArray = true) {sorted : List Value} (hperm : sorted.Perm o.definedElements) :
    (setElements r (fun _ => o.refilled sorted) F.context u).Comes
      (fun _ v => Reordered F r o sorted v) F.breaks := by
  have hlt : r.index < u.heap.objects.size := lt_of_isArray (hr ▸ harray)
  have hset : setElements r (fun _ => o.refilled sorted) F.context u =
      .done () { u with heap := u.heap.modify r fun o' => o'.withElements (o.refilled sorted) } := by
    refine congrArg (fun change => Course.done () { u with heap := u.heap.modify r change })
      (funext fun o' => ?_)
    obtain ⟨proto, isError, frozen, properties, content⟩ := o'
    cases content <;> rfl
  have hget : (u.heap.modify r fun o' => o'.withElements (o.refilled sorted)).get r =
      o.withElements (o.refilled sorted) := by
    rw [Heap.get_modify_self _ _ hlt, hr]
  rw [hset]
  refine ⟨hget, ?_, hperm, u, hu, ?_⟩
  · rw [hget, Object.elements_withElements harray]
    exact Object.perm_refilled hperm
  · dsimp only
    rw [hget]
    refine congrArg (fun heap => { u with heap }) (Heap.modify_congr ?_)
    rw [hr]

/-- What a sort of the array does, by what the sort of its defined elements does. -/
theorem comes_sortArray (ho : w.heap.get r = o) (harray : o.isArray = true)
    (hcallable : comparator.isUndefined = true ∨ w.heap.isCallable comparator = true)
    (hw : F.holds w) (hsame : ∀ v, F.holds v → v.heap.get r = o) {Q : List Value → Prop}
    (hsort : (Sort.sort (goesBefore comparator) o.definedElements).Yields F Q)
    (hperm : ∀ sorted, Q sorted → sorted.Perm o.definedElements) :
    (sortArray r comparator F.context w).Comes
      (fun _ v => ∃ sorted, Q sorted ∧ Reordered F r o sorted v) F.breaks := by
  have hrun : sortArray r comparator F.context w =
      (Sort.sort (goesBefore comparator) o.definedElements >>= fun sorted =>
        setElements r fun _ => o.refilled sorted) F.context w := by
    subst ho
    unfold sortArray
    cases hnone : comparator.isUndefined with
    | true => rfl
    | false =>
      have hcallback : callback comparator F.context w = .done () w := by
        change (if !(w.heap.isCallable comparator) then _ else _ : Action Unit) F.context w = _
        rw [hcallable.resolve_left (by simp [hnone])]
        rfl
      change (callback comparator F.context w).bind _ = _
      rw [hcallback]
      rfl
  rw [hrun]
  exact (hsort w hw).bind fun sorted u hu =>
    (reordered_setElements hu.1 (hsame u hu.1) harray (hperm sorted hu.2)).imp
      (fun _ v hv => ⟨sorted, hu.2, hv⟩) fun _ _ => id

section

variable {xs : List Value} {form : Value → Text}

/-- The order of elements by their texts. -/
def upToByText (form : Value → Text) (a b : Value) : Bool := Text.compare (form a) (form b) != .gt

theorem preorders_upToByText (xs : List Value) (form : Value → Text) :
    Preorders xs (upToByText form) where
  total a _ b _ := by
    unfold upToByText
    rw [← Text.compare_swap (form a) (form b)]
    cases Text.compare (form a) (form b) <;> decide
  trans a _ b _ c _ hab hbc := by
    simp only [upToByText, bne_iff_ne] at hab hbc ⊢
    exact Text.compare_trans hab hbc

/-- Without a comparator elements are compared by their texts. If those stay what they are, the
comparisons say what the order of texts says. -/
theorem follows_texts (h : ∀ a ∈ xs, (toText a).Yields F fun t => t = form a) :
    Follows F .undefined xs (upToByText form) := by
  intro a ha b hb
  refine (h a ha).bind fun s hs => (h b hb).bind fun t ht => yields_pure ?_
  subst hs ht
  unfold upToByText
  rw [← Text.compare_swap (form a) (form b)]
  cases Text.compare (form a) (form b) <;> decide

end

/-- The sort of an array whose comparisons do not touch it gives back the array. It has then its
elements in some order, the undefined ones behind all others, whatever the comparisons say; if they
say what a total preorder says, the others are in that order, and equal ones as they were before.
The sort is cut short only as a comparison is, and then the array is what it was. -/
theorem sort_is_stable_and_atomic (args : List Value) (ho : w.heap.get r = o)
    (harray : o.isArray = true) (hfree : o.frozen = false)
    (hcallable : (arg args 0).isUndefined = true ∨ w.heap.isCallable (arg args 0) = true)
    (hw : F.holds w) (h : Untouching F r o (arg args 0)) :
    (callArray .sort (.object r) args F.context w).Comes
      (fun result v => result = .object r ∧ ∃ sorted, Reordered F r o sorted v ∧
        ∀ le, Preorders o.definedElements le → Follows F (arg args 0) o.definedElements le →
          StablySorted le o.definedElements sorted)
      fun i v => F.breaks i v ∧ v.heap.get r = o := by
  have hany : (Sort.sort (goesBefore (arg args 0)) o.definedElements).Yields F fun sorted =>
      sorted.Perm o.definedElements :=
    (yields_sort (compares_any h) fun _ => id).imp fun _ hs => hs.rearranges.perm.symm
  have hordered := hany.and_forall
    (p := fun le => Preorders o.definedElements le ∧ Follows F (arg args 0) o.definedElements le)
    fun le hle => (yields_sort (compares_preorder hle.1 hle.2) fun _ => id).imp
      fun _ => hle.1.stablySorted
  have hthis : thisArray (.object r) "sort" F.context w = .done r w := by
    change (if (w.heap.get r).isArray = true then pure r else _ : Action Ref) F.context w = _
    rw [ho, if_pos harray]
    rfl
  have hwritable : writableArray (.object r) "sort" F.context w = .done r w := by
    change (thisArray (.object r) "sort" F.context w).bind _ = _
    rw [hthis]
    change (if (w.heap.get r).frozen = true then _ else _ : Action Ref) F.context w = _
    rw [ho, hfree]
    rfl
  have hrun : callArray .sort (.object r) args F.context w =
      (sortArray r (arg args 0) F.context w).bind fun _ v => .done (.object r) v := by
    change (writableArray (.object r) "sort" F.context w).bind _ = _
    rw [hwritable]
    rfl
  have hsorted := comes_sortArray ho harray hcallable hw h.holds hordered fun _ hs => hs.1
  rw [hrun]
  refine (hsorted.imp (fun _ _ => id) fun i v hv => ⟨hv, h.breaks i v hv⟩).bind fun _ v hv => ?_
  obtain ⟨sorted, ⟨-, hle⟩, hreordered⟩ := hv
  exact ⟨rfl, sorted, hreordered, fun le hpre hfollows => hle le ⟨hpre, hfollows⟩⟩

/-- An array of two texts and an undefined element between them. -/
def words : Object :=
  { content := .array #[.text (Text.ofString "b"), .undefined, .text (Text.ofString "a")] }

def wordsWorld : World := { heap := ⟨#[words]⟩ }

/-- Texts are compared without a change of the state. -/
def wordsOccasion : Occasion :=
  ⟨Execution.outermostContext "" false, (· = wordsWorld), fun _ _ => False⟩

def wordOf : Value → Text
  | .text t => t
  | _ => []

theorem toText_words : ∀ a ∈ words.definedElements,
    (toText a).Yields wordsOccasion fun t => t = wordOf a := by
  have hword (t : Text) : (toText (.text t)).Yields wordsOccasion (· = wordOf (.text t)) :=
    fun v hv => ⟨hv, rfl⟩
  exact List.forall_mem_cons.mpr ⟨hword _, List.forall_mem_cons.mpr ⟨hword _, nofun⟩⟩

theorem words_are_sorted :
    (callArray .sort (.object ⟨0⟩) [] wordsOccasion.context wordsWorld).Comes
      (fun _ v => ∃ sorted, Reordered wordsOccasion ⟨0⟩ words sorted v ∧
        StablySorted (upToByText wordOf) words.definedElements sorted) fun _ _ => False := by
  have hfollows : Follows wordsOccasion .undefined words.definedElements (upToByText wordOf) :=
    follows_texts toText_words
  have huntouching : Untouching wordsOccasion ⟨0⟩ words .undefined :=
    ⟨fun v hv => hv ▸ rfl, nofun, fun a ha b hb => (hfollows a ha b hb).imp fun _ _ => trivial⟩
  refine (sort_is_stable_and_atomic (F := wordsOccasion) (w := wordsWorld) [] rfl rfl rfl (.inl rfl)
    rfl huntouching).imp (fun result v hv => ?_) fun _ _ hi => hi.1
  obtain ⟨-, sorted, hreordered, hle⟩ := hv
  exact ⟨sorted, hreordered, hle _ (preorders_upToByText _ _) hfollows⟩

end Stepper.Builtin
