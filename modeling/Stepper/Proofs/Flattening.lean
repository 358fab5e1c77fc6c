import Stepper.Proofs.Exact
import Stepper.Proofs.Folding
import Stepper.Proofs.Grounding.Program
import Stepper.Proofs.Serializing
import Stepper.Proofs.Slots

/-!
Flattening. An array that no array leads back to is a tree: its elements, and under each array among
them the elements of that one. To flatten it is to open levels of the tree from above. So two
flattenings open as many levels as one that goes as deep as both, and one that goes as deep as the
tree leaves only its leaves. Every level that is opened takes up a frame; where too few are left,
the flattening is refused. Mapping and then opening one level is what `flatMap` does.
-/
namespace Stepper.Binary64

/-- A number that stays at one or more as long as a natural number does, when one is taken from both
at most so many times. -/
def CountsDown : Nat → Float → Nat → Prop
  | 0, _, _ => True
  | k + 1, x, m => (1 ≤ x ↔ 1 ≤ m) ∧ (1 ≤ m → CountsDown k (x - 1) (m - 1))

theorem one_eq_ofNat : (1 : Float) = ofNat 1 := by decide

theorem countsDown_ofNat_of_lt {m : Nat} (hm : m < Nat.pow 2 53) (k : Nat) :
    CountsDown k (ofNat m) m := by
  induction k generalizing m with
  | zero => trivial
  | succ k ih =>
    refine ⟨one_eq_ofNat ▸ one_le_ofNat hm, fun hpos => ?_⟩
    rw [one_eq_ofNat, ofNat_sub hpos hm]
    exact ih (Nat.lt_of_le_of_lt (Nat.sub_le m 1) hm)

/-- Numbers that are not reached are not told apart. -/
theorem CountsDown.of_le {x : Float} {k i m : Nat} (hx : CountsDown k x i) (hi : k ≤ i)
    (hm : k ≤ m) : CountsDown k x m := by
  induction k generalizing x i m with
  | zero => trivial
  | succ k ih =>
    have hone : 1 ≤ x := hx.1.mpr (by omega)
    exact ⟨iff_of_true hone (by omega), fun _ => ih (hx.2 (by omega)) (by omega) (by omega)⟩

theorem countsDown_of_isVast {x : Float} {k m : Nat} (hx : IsVast x) (hm : k ≤ m)
    (hk : k ≤ 2 ^ 53) : CountsDown k x m := by
  induction k generalizing x m with
  | zero => trivial
  | succ k ih =>
    refine ⟨iff_of_true (one_eq_ofNat ▸ one_le_of_isVast hx) (by omega), fun _ => ?_⟩
    rw [one_eq_ofNat]
    obtain hvast | hlast := isVast_sub_one hx
    · exact ih hvast (by omega) (by omega)
    · rw [hlast]
      exact (countsDown_ofNat_of_lt (by decide) k).of_le (by omega) (by omega)

/-- A natural number may be rounded, but one that is does not come to an end before `2^53` steps. -/
theorem countsDown_ofNat {k : Nat} (hk : k ≤ 2 ^ 53) (m : Nat) : CountsDown k (ofNat m) m := by
  obtain hsmall | hlarge := Nat.lt_or_ge m (Nat.pow 2 53)
  · exact countsDown_ofNat_of_lt hsmall k
  · exact countsDown_of_isVast (isVast_ofNat hlarge) (hk.trans hlarge) hk

end Stepper.Binary64

namespace Stepper.Machine

/-! ### Nested arrays -/

/-- The elements of an array one after the other. One that is an array comes with its own. -/
inductive Nest
  | nil
  | leaf (v : Value) (rest : Nest)
  | array (r : Ref) (inside rest : Nest)

namespace Nest

variable {m n : Nat}

def values : Nest → List Value
  | nil => []
  | leaf v rest => v :: rest.values
  | array r _ rest => .object r :: rest.values

/-- The elements at all levels that are no arrays, from left to right. -/
def leaves : Nest → List Value
  | nil => []
  | leaf v rest => v :: rest.leaves
  | array _ inside rest => inside.leaves ++ rest.leaves

/-- How many levels of arrays there are among the elements. -/
def depth : Nest → Nat
  | nil => 0
  | leaf _ rest => rest.depth
  | array _ inside rest => max (inside.depth + 1) rest.depth

def append : Nest → Nest → Nest
  | nil, t => t
  | leaf v rest, t => leaf v (rest.append t)
  | array r inside rest, t => array r inside (rest.append t)

/-- The arrays of so many levels give way to their elements. -/
def opened : Nest → Nat → Nest
  | nil, _ => nil
  | leaf v rest, m => leaf v (rest.opened m)
  | array r inside rest, 0 => array r inside (rest.opened 0)
  | array _ inside rest, m + 1 => (inside.opened m).append (rest.opened (m + 1))

theorem values_append (s t : Nest) : (s.append t).values = s.values ++ t.values := by
  induction s with
  | nil => rfl
  | leaf v rest ih => exact congrArg (v :: ·) ih
  | array r inside rest _ ih => exact congrArg (.object r :: ·) ih

theorem append_assoc (s t u : Nest) : (s.append t).append u = s.append (t.append u) := by
  induction s with
  | nil => rfl
  | leaf v rest ih => exact congrArg (leaf v) ih
  | array r inside rest _ ih => exact congrArg (array r inside) ih

theorem depth_append (s t : Nest) : (s.append t).depth = max s.depth t.depth := by
  induction s with
  | nil => exact (Nat.zero_max _).symm
  | leaf v rest ih => exact ih
  | array r inside rest _ ih => rw [append, depth, ih, depth, Nat.max_assoc]

theorem opened_append (s t : Nest) (m : Nat) :
    (s.append t).opened m = (s.opened m).append (t.opened m) := by
  induction s with
  | nil => rfl
  | leaf v rest ih => exact congrArg (leaf v) ih
  | array r inside rest _ ih =>
    cases m with
    | zero => exact congrArg (array r inside) ih
    | succ m => rw [append, opened, ih, opened, append_assoc]

theorem opened_zero (t : Nest) : t.opened 0 = t := by
  induction t with
  | nil => rfl
  | leaf v rest ih => exact congrArg (leaf v) ih
  | array r inside rest _ ih => exact congrArg (array r inside) ih

/-- Levels opened in turn are levels opened at once. -/
theorem opened_opened (t : Nest) (m n : Nat) : (t.opened m).opened n = t.opened (m + n) := by
  induction t generalizing m with
  | nil => rfl
  | leaf v rest ih => exact congrArg (leaf v) (ih m)
  | array r inside rest ihinside ih =>
    cases m with
    | zero => rw [opened_zero, Nat.zero_add]
    | succ m => rw [opened, opened_append, ihinside, ih, Nat.succ_add, opened]

theorem depth_opened (t : Nest) (m : Nat) : (t.opened m).depth = t.depth - m := by
  induction t generalizing m with
  | nil => exact (Nat.zero_sub m).symm
  | leaf v rest ih => exact ih m
  | array r inside rest ihinside ih =>
    cases m with
    | zero => rw [opened_zero, Nat.sub_zero]
    | succ m =>
      rw [opened, depth_append, ihinside, ih, depth]
      omega

/-- To open all levels leaves the leaves. -/
theorem values_opened {t : Nest} (hm : t.depth ≤ m) : (t.opened m).values = t.leaves := by
  induction t generalizing m with
  | nil => rfl
  | leaf v rest ih => exact congrArg (v :: ·) (ih hm)
  | array r inside rest ihinside ih =>
    obtain ⟨hinside, hrest⟩ := Nat.max_le.mp hm
    obtain ⟨m, rfl⟩ : ∃ k, m = k + 1 := ⟨m - 1, by omega⟩
    rw [opened, values_append, ihinside (by omega), ih hrest, leaves]

end Nest

namespace Heap

variable {h : Heap} {r s : Ref} {v : Value} {vs us : List Value} {t u : Nest}

def IsArray (h : Heap) (v : Value) : Prop := ∃ r, v = .object r ∧ (h.get r).isArray = true

/-- How the values of a list are laid out in a state. -/
inductive Nests (h : Heap) : List Value → Nest → Prop
  | nil : Nests h [] .nil
  | leaf {v : Value} {vs : List Value} {rest : Nest} (hv : ¬ h.IsArray v)
      (hrest : Nests h vs rest) : Nests h (v :: vs) (.leaf v rest)
  | array {r : Ref} {vs : List Value} {inside rest : Nest} (hr : (h.get r).isArray = true)
      (hinside : Nests h (h.get r).elements.toList inside) (hrest : Nests h vs rest) :
      Nests h (.object r :: vs) (.array r inside rest)

theorem Nests.append (ht : h.Nests vs t) (hu : h.Nests us u) : h.Nests (vs ++ us) (t.append u) := by
  induction ht with
  | nil => exact hu
  | leaf hv _ ih => exact .leaf hv ih
  | array hr hinside _ _ ih => exact .array hr hinside ih

theorem Nests.opened (ht : h.Nests vs t) (m : Nat) : h.Nests (t.opened m).values (t.opened m) := by
  induction ht generalizing m with
  | nil => exact .nil
  | leaf hv _ ih => exact .leaf hv (ih m)
  | array hr hinside _ ihinside ih =>
    cases m with
    | zero => exact .array hr hinside (ih 0)
    | succ m =>
      rw [Nest.opened, Nest.values_append]
      exact (ihinside m).append (ih (m + 1))

/-- An array is an element of another. -/
def Inside (h : Heap) (s r : Ref) : Prop :=
  (h.get s).isArray = true ∧ .object s ∈ (h.get r).elements.toList

/-- No array that is found in an array, however deep, is found in itself. -/
def Acyclic (h : Heap) (r : Ref) : Prop :=
  ∀ s, Relation.ReflTransGen h.Inside s r → ¬ Relation.TransGen h.Inside s s

theorem there_of_isArray (hr : (h.get r).isArray = true) : r.index < h.objects.size := by
  refine Nat.lt_of_not_le fun hle => ?_
  rw [get_of_size_le hle] at hr
  cases hr

theorem finite_inside (hr : (h.get r).isArray = true) :
    {s | Relation.ReflTransGen h.Inside s r}.Finite := by
  have hinjective : Set.InjOn Ref.index (Set.preimage Ref.index {i | i < h.objects.size}) := by
    rintro ⟨i⟩ - ⟨j⟩ - hij
    exact congrArg Ref.mk hij
  refine ((Set.finite_lt_nat h.objects.size).preimage hinjective).subset fun s hs => ?_
  cases Relation.ReflTransGen.cases_head hs with
  | inl heq => exact there_of_isArray (heq ▸ hr)
  | inr hnext =>
    obtain ⟨_, hs, -⟩ := hnext
    exact there_of_isArray hs.1

/-- There is no endless way down, for there are only so many objects. -/
theorem Acyclic.acc (hacyclic : h.Acyclic r) (hr : (h.get r).isArray = true) : Acc h.Inside r := by
  have hfinite := (finite_inside hr).to_subtype
  have hirrefl : Std.Irrefl (Subrel (Relation.TransGen h.Inside)
      (· ∈ {s | Relation.ReflTransGen h.Inside s r})) := ⟨fun s => hacyclic s s.2⟩
  have hwf : {s | Relation.ReflTransGen h.Inside s r}.WellFoundedOn (Relation.TransGen h.Inside) :=
    Finite.wellFounded_of_trans_of_irrefl _
  exact (Set.WellFoundedOn.acc_iff_wellFoundedOn.out 0 1).mpr
    (hwf.mono' fun _ _ _ _ hab => .single hab)

theorem exists_nests_of_forall (hvs : ∀ s, (h.get s).isArray = true → .object s ∈ vs →
    ∃ t, h.Nests (h.get s).elements.toList t) : ∃ t, h.Nests vs t := by
  induction vs with
  | nil => exact ⟨_, .nil⟩
  | cons v vs ih =>
    obtain ⟨rest, hrest⟩ := ih fun s hs hmem => hvs s hs (.tail _ hmem)
    by_cases hv : h.IsArray v
    · obtain ⟨s, rfl, hs⟩ := hv
      obtain ⟨inside, hinside⟩ := hvs s hs (.head _)
      exact ⟨_, .array hs hinside hrest⟩
    · exact ⟨_, .leaf hv hrest⟩

theorem exists_nests_of_acc (hr : Acc h.Inside r) : ∃ t, h.Nests (h.get r).elements.toList t := by
  induction hr with
  | intro r _ ih => exact exists_nests_of_forall fun s hs hmem => ih s ⟨hs, hmem⟩

theorem acyclic_of_acc (hr : Acc h.Inside r) : h.Acyclic r := by
  induction hr with
  | intro r _ ih =>
    intro s hs hcycle
    obtain rfl | ⟨q, hq, hqr⟩ := Relation.ReflTransGen.cases_tail hs
    · -- the cycle can be entered at the array before the last
      obtain ⟨q, hrq, hqr⟩ := Relation.TransGen.tail'_iff.mp hcycle
      exact ih q hqr q .refl (.head' hqr hrq)
    · exact ih q hqr s hq hcycle

theorem Nests.acc (ht : h.Nests vs t) (hs : (h.get s).isArray = true) (hmem : .object s ∈ vs) :
    Acc h.Inside s := by
  induction ht generalizing s with
  | nil => cases hmem
  | leaf hv _ ih =>
    cases hmem with
    | head => exact absurd ⟨s, rfl, hs⟩ hv
    | tail _ hmem => exact ih hs hmem
  | array hr _ _ ihinside ih =>
    cases hmem with
    | head => exact ⟨_, fun q hq => ihinside hq.1 hq.2⟩
    | tail _ hmem => exact ih hs hmem

/-- The arrays that can be laid out are those that lead back to none. -/
theorem exists_nests_iff (hr : (h.get r).isArray = true) :
    (∃ t, h.Nests (h.get r).elements.toList t) ↔ h.Acyclic r := by
  refine ⟨fun ⟨t, ht⟩ => ?_, fun hacyclic => exists_nests_of_acc (hacyclic.acc hr)⟩
  exact acyclic_of_acc ⟨_, fun s hs => ht.acc hs.1 hs.2⟩

end Heap

end Stepper.Machine

namespace Stepper.Builtin

open Machine Machine.Action Execution

/-! ### Opening levels -/

section

variable {h : Heap} {x : Float} {m room : Nat} {v : Value} {vs : List Value} {t : Nest} {r : Ref}

theorem flattenAll_keep (hv : ¬ (h.IsArray v ∧ 1 ≤ x)) :
    flattenAll h x room (v :: vs) = (flattenAll h x room vs).map (v :: ·) := by
  by_cases hobject : ∃ r, v = .object r
  · obtain ⟨r, rfl⟩ := hobject
    have hclosed : ((h.get r).isArray && decide (x ≥ 1)) = false := by
      rw [← Bool.not_eq_true, Bool.and_eq_true, decide_eq_true_iff]
      exact fun ⟨hr, hx⟩ => hv ⟨⟨r, rfl, hr⟩, hx⟩
    rw [flattenAll]
    simp only [hclosed]
    cases flattenAll h x room vs <;> rfl
  · rw [flattenAll]
    · cases flattenAll h x room vs <;> rfl
    · exact fun r hr => hobject ⟨r, hr⟩

theorem flattenAll_open (hr : (h.get r).isArray = true) (hx : 1 ≤ x) :
    flattenAll h x room (.object r :: vs) =
      (flatten h (x - 1) room (h.get r).elements.toList).bind fun opened =>
        (flattenAll h x room vs).map (opened ++ ·) := by
  have hopen : ((h.get r).isArray && decide (x ≥ 1)) = true := by
    rw [Bool.and_eq_true, decide_eq_true_iff]
    exact ⟨hr, hx⟩
  rw [flattenAll]
  simp only [hopen, if_true]
  refine congrArg _ (funext fun opened => ?_)
  cases flattenAll h x room vs <;> rfl

-- An array is looked at before there is seen to be no frame for it, so the depth is compared once
-- more than there are frames.
theorem flattenAll_of_nests (ht : h.Nests vs t) (hx : Binary64.CountsDown (room + 1) x m) :
    flattenAll h x room vs =
      if min m t.depth ≤ room then .ok (t.opened m).values else .error .nestingTooDeep := by
  induction ht generalizing x m room with
  | nil =>
    rw [flattenAll, Nest.depth, Nat.min_zero, if_pos (Nat.zero_le room)]
    rfl
  | leaf hv _ ih =>
    rw [flattenAll_keep fun hopen => hv hopen.1, ih hx, apply_ite (Except.map _)]
    rfl
  | @array r vs inside rest hr _ _ ihinside ih =>
    cases m with
    | zero =>
      have hone : ¬ 1 ≤ x := fun hle => absurd (hx.1.mp hle) (Nat.not_succ_le_zero 0)
      rw [flattenAll_keep fun hopen => hone hopen.2, ih hx, Nat.zero_min, Nat.zero_min,
        if_pos (Nat.zero_le room), if_pos (Nat.zero_le room)]
      rfl
    | succ m =>
      have hone : 1 ≤ x := hx.1.mpr (Nat.succ_pos m)
      rw [flattenAll_open hr hone, ih hx, Nest.opened, Nest.values_append, Nest.depth]
      cases room with
      | zero =>
        have hfull : ¬ min (m + 1) (max (inside.depth + 1) rest.depth) ≤ 0 := by omega
        rw [flatten, if_neg hfull]
        rfl
      | succ room =>
        rw [flatten, ihinside (hx.2 (Nat.succ_pos m)), Nat.add_sub_cancel]
        split_ifs <;> first | rfl | omega

/-- An array is flattened where every level that is opened, and the array itself, has a frame. -/
theorem flatten_of_nests (ht : h.Nests vs t) (hx : Binary64.CountsDown room x m) :
    flatten h x room vs =
      if min m t.depth < room then .ok (t.opened m).values else .error .nestingTooDeep := by
  cases room with
  | zero => rw [flatten, if_neg (Nat.not_lt_zero _)]
  | succ room =>
    simp only [flatten, flattenAll_of_nests ht hx, Nat.lt_succ_iff]

/-- Depth zero opens nothing. -/
theorem flatten_zero (h : Heap) (room : Nat) (vs : List Value) :
    flatten h (Binary64.ofNat 0) (room + 1) vs = .ok vs := by
  have hzero : ¬ (1 : Float) ≤ Binary64.ofNat 0 := by decide
  rw [flatten]
  induction vs with
  | nil => rw [flattenAll]
  | cons v vs ih =>
    rw [flattenAll_keep fun hopen => hzero hopen.2, ih]
    rfl

/-- Flattening reads only objects that are there. -/
theorem flatten_congr {h' : Heap} {n : Horizon} (hh : Known n h)
    (hsame : ∀ r : Ref, n.Has r → h'.get r = h.get r) (hvs : Known n vs) :
    flatten h' x room vs = flatten h x room vs := by
  induction room generalizing x vs with
  | zero => rw [flatten, flatten]
  | succ room ih =>
    rw [flatten, flatten]
    induction vs with
    | nil => rw [flattenAll, flattenAll]
    | cons v vs ihvs =>
      obtain ⟨hv, hrest⟩ := known_cons.mp hvs
      have hget : ∀ r, v = .object r → h'.get r = h.get r := by
        rintro r rfl
        exact hsame r (known_ref.mp hv)
      by_cases hopen : h.IsArray v ∧ 1 ≤ x
      · obtain ⟨⟨r, rfl, hr⟩, hx⟩ := hopen
        have hr' : (h'.get r).isArray = true := by rw [hget r rfl, hr]
        rw [flattenAll_open hr hx, flattenAll_open hr' hx, hget r rfl, ih (hh.get r).elements,
          ihvs hrest]
      · have hkeep : ¬ (h'.IsArray v ∧ 1 ≤ x) := by
          rintro ⟨⟨r, rfl, hr⟩, hx⟩
          exact hopen ⟨⟨r, rfl, by rwa [hget r rfl] at hr⟩, hx⟩
        rw [flattenAll_keep hopen, flattenAll_keep hkeep, ihvs hrest]

end

/-! ### Methods -/

/-- Both come to arrays of the same elements or are cut short alike, after telling the host the same
in the same states. -/
inductive SameArray : Course Value → Course Value → Prop
  | done {a b : Value} {w u : World} {es : List Value} (ha : Holds w a es) (hb : Holds u b es) :
      SameArray (.done a w) (.done b u)
  | broke (i : Interrupt) (w u : World) : SameArray (.broke i w) (.broke i u)
  | tell (q : Call) (w : World) {next next' : Machine.Reply → Course Value}
      (hnext : ∀ r, SameArray (next r) (next' r)) : SameArray (.tell q w next) (.tell q w next')

theorem sameArray_ofExcept (es : Except Fault (List Value)) (c : Context) (w u : World) :
    SameArray ((ofExcept es >>= newArray) c w) ((ofExcept es >>= newArray) c u) := by
  cases es with
  | error f => exact .broke (.fault f) w u
  | ok es =>
    obtain ⟨a, w', ha, hholds, -⟩ := newArray_holds es c w
    obtain ⟨b, u', hb, hholds', -⟩ := newArray_holds es c u
    change SameArray (newArray es c w) (newArray es c u)
    rw [ha, hb]
    exact .done hholds hholds'

theorem sameArray_bind {y : Course (List Value)} {n : Horizon} {f g : List Value → World → Course Value}
    (hy : y.Grounded n) (hfg : ∀ es u, u.Grounded n.hidden → Known (u.horizon n.hidden) es →
      SameArray (f es u) (g es u)) :
    SameArray (y.bind f) (y.bind g) := by
  induction y with
  | done es u => exact hfg es u hy.2.1 hy.2.2
  | broke i u => exact .broke i u u
  | tell q u next ih => exact .tell q u fun r => ih r (hy.2 r)

section

variable {c : Context} {w : World} {r : Ref} {x : Float} {m : Nat} {es : List Value} {t : Nest}

theorem callArray_flat (hr : (w.heap.get r).isArray = true) :
    callArray .flat (.object r) [.number x] c w =
      (ofExcept (flatten w.heap x c.room (w.heap.get r).elements.toList) >>= newArray) c w := by
  change (thisArray (.object r) "flat" >>= _) c w = _
  rw [bind_of_done (thisArray_eq hr "flat")]
  rfl

theorem flat_of_nests (hr : (w.heap.get r).isArray = true)
    (ht : w.heap.Nests (w.heap.get r).elements.toList t) (hroom : c.room ≤ recursionLimit) :
    callArray .flat (.object r) [natValue m] c w =
      if min m t.depth < c.room then newArray (t.opened m).values c w
      else .broke (.fault .nestingTooDeep) w := by
  have hcount : Binary64.CountsDown c.room (Binary64.ofNat m) m :=
    Binary64.countsDown_ofNat (hroom.trans (by decide)) m
  rw [natValue, callArray_flat hr, flatten_of_nests ht hcount]
  split_ifs <;> rfl

/-- An array that is made of elements is flattened as they are. -/
theorem newArray_flat (hw : w.Grounded []) (hes : Known (w.horizon []) es) (c : Context) (x : Float) : ∃ u,
    (newArray es >>= fun a => callArray .flat a [.number x]) c w =
      (ofExcept (flatten w.heap x c.room es) >>= newArray) c u := by
  have hnew : (w.heap.alloc (arrayOf c.realm es)).2.get (w.heap.alloc (arrayOf c.realm es)).1 =
      arrayOf c.realm es := Heap.get_alloc ..
  have hold (s : Ref) (hs : (w.horizon []).Has s) :
      (w.heap.alloc (arrayOf c.realm es)).2.get s = w.heap.get s := Heap.get_alloc_of_lt _ _ hs.1
  refine ⟨{ w with heap := (w.heap.alloc (arrayOf c.realm es)).2 }, ?_⟩
  rw [bind_of_done (newArray_eq es c w), callArray_flat (by rw [hnew]; rfl), hnew]
  exact congrArg (fun made => (ofExcept made >>= newArray) c _) (flatten_congr hw.heap hold hes)

/-- `flatMap` opens one level of what `map` makes. -/
theorem callArray_flatMap (hw : w.Grounded []) (hc : c.Grounded (w.horizon []))
    (hr : (w.heap.get r).isArray = true) {args : List Value} (hargs : Known (w.horizon []) args) :
    SameArray (callArray .flatMap (.object r) args c w)
      ((callArray .map (.object r) args >>= fun a => callArray .flat a [natValue 1]) c w) := by
  have hflatMap : callArray .flatMap (.object r) args c w = (mapElements r args c w).bind
      fun es u => (ofExcept (flatten u.heap one c.room es) >>= newArray) c u := by
    change (thisArray (.object r) "flatMap" >>= _) c w = _
    rw [bind_of_done (thisArray_eq hr "flatMap")]
    rfl
  have hmap : callArray .map (.object r) args c w =
      (mapElements r args c w).bind fun es u => newArray es c u := by
    change (thisArray (.object r) "map" >>= _) c w = _
    rw [bind_of_done (thisArray_eq hr "map")]
    rfl
  have hmapped : (mapElements r args c w).Grounded (w.horizon []) :=
    grounded_mapElements hargs (known_ref.mpr ⟨Heap.there_of_isArray hr, nofun⟩) c [] w (.refl _) hc hw
  change SameArray _ ((callArray .map (.object r) args c w).bind _)
  rw [hflatMap, hmap, Course.bind_assoc]
  refine sameArray_bind hmapped fun es u hu hes => ?_
  obtain ⟨u', hflat⟩ := newArray_flat hu hes c one
  change SameArray _ ((newArray es >>= fun a => callArray .flat a [.number one]) c u)
  rw [hflat]
  exact sameArray_ofExcept ..

/-- The second step works on a new array, but what it opens was there before. -/
theorem flat_flat (hw : w.Grounded []) (hr : (w.heap.get r).isArray = true)
    (ht : w.heap.Nests (w.heap.get r).elements.toList t) (hroom : c.room ≤ recursionLimit)
    {m n : Nat} (hfits : min (m + n) t.depth < c.room) :
    SameArray
      ((callArray .flat (.object r) [natValue m] >>= fun a => callArray .flat a [natValue n]) c w)
      (callArray .flat (.object r) [natValue (m + n)] c w) := by
  have hcount (k : Nat) : Binary64.CountsDown c.room (Binary64.ofNat k) k :=
    Binary64.countsDown_ofNat (hroom.trans (by decide)) k
  have hknown : Known (w.horizon []) (t.opened m).values := by
    refine known_of_flatten hw.heap (Binary64.ofNat m) c.room (hw.heap.get r).elements ?_
    rw [flatten_of_nests ht (hcount m), if_pos (by omega)]
  have hfirst : callArray .flat (.object r) [natValue m] c w =
      newArray (t.opened m).values c w := by
    rw [flat_of_nests hr ht hroom, if_pos (by omega)]
  have hsecond : flatten w.heap (Binary64.ofNat n) c.room (t.opened m).values =
      .ok (t.opened (m + n)).values := by
    rw [flatten_of_nests (ht.opened m) (hcount n), Nest.depth_opened, Nest.opened_opened,
      if_pos (by omega)]
  obtain ⟨u, hflat⟩ := newArray_flat hw hknown c (Binary64.ofNat n)
  change SameArray ((callArray .flat (.object r) [natValue m] c w).bind _) _
  rw [hfirst]
  change SameArray ((newArray _ >>= fun a => callArray .flat a [.number (Binary64.ofNat n)]) c w) _
  rw [hflat, hsecond, flat_of_nests hr ht hroom, if_pos hfits]
  exact sameArray_ofExcept (.ok _) c u w

/-- The arrays that lead back to none are those that can be laid out, and these are flattened by so
many levels if there are more frames left than levels are opened, and refused otherwise. Two
flattenings in a row make what one by the sum makes; one that is deep enough leaves the leaves in
their order. Depth zero makes a copy of any array, and `flatMap` makes what `map` and then depth one
make, whatever the callback does. -/
theorem flattening_composes (hw : w.Grounded []) (hc : c.Grounded (w.horizon []))
    (hroom : c.room ≤ recursionLimit) (hr : (w.heap.get r).isArray = true) :
    ((∃ t, w.heap.Nests (w.heap.get r).elements.toList t) ↔ w.heap.Acyclic r) ∧
    (∀ t, w.heap.Nests (w.heap.get r).elements.toList t →
      (∀ m, callArray .flat (.object r) [natValue m] c w =
        if min m t.depth < c.room then newArray (t.opened m).values c w
        else .broke (.fault .nestingTooDeep) w) ∧
      (∀ m n, min (m + n) t.depth < c.room → SameArray
        ((callArray .flat (.object r) [natValue m] >>= fun a => callArray .flat a [natValue n]) c w)
        (callArray .flat (.object r) [natValue (m + n)] c w)) ∧
      ∀ m, t.depth ≤ m → t.depth < c.room →
        callArray .flat (.object r) [natValue m] c w = newArray t.leaves c w) ∧
    (0 < c.room → callArray .flat (.object r) [natValue 0] c w =
      newArray (w.heap.get r).elements.toList c w) ∧
    ∀ args, Known (w.horizon []) args → SameArray (callArray .flatMap (.object r) args c w)
      ((callArray .map (.object r) args >>= fun a => callArray .flat a [natValue 1]) c w) := by
  refine ⟨Heap.exists_nests_iff hr, fun t ht => ⟨fun m => flat_of_nests hr ht hroom,
    fun m n => flat_flat hw hr ht hroom, fun m hm hfits => ?_⟩, fun hpos => ?_,
    fun args hargs => callArray_flatMap hw hc hr hargs⟩
  · rw [flat_of_nests hr ht hroom, if_pos (by omega), Nest.values_opened hm]
  · obtain ⟨room, hsucc⟩ : ∃ room, c.room = room + 1 := ⟨c.room - 1, by omega⟩
    rw [natValue, callArray_flat hr, hsucc, flatten_zero]
    rfl

end

/-! ### Boxes and towers -/

section

variable {w : World} {es : List Value}

/-- A state with one more array. -/
def withArray (es : List Value) (w : World) : World :=
  { w with heap := (w.heap.alloc (arrayOf setting.realm es)).2 }

theorem size_withArray (es : List Value) (w : World) : (withArray es w).size = w.size + 1 :=
  Array.size_push _

theorem get_withArray (es : List Value) (w : World) :
    (withArray es w).heap.get ⟨w.size⟩ = arrayOf setting.realm es :=
  Heap.get_alloc ..

theorem grounded_withArray (hw : w.Grounded []) (hn : Later (initialWorld.horizon []) (w.horizon []))
    (hes : Known (w.horizon []) es) : (withArray es w).Grounded [] := by
  have hrealm := known_realm_setting.mono hn
  refine hw.alloc ?_
  unfold arrayOf
  grind

/-- The array `[[null], true]` in place. -/
def withBox (w : World) : World :=
  withArray [.object ⟨w.size⟩, .bool true] (withArray [.null] w)

theorem grounded_withBox (hw : w.Grounded []) (hn : Later (initialWorld.horizon []) (w.horizon [])) :
    (withBox w).Grounded [] := by
  have hlater : Later (w.horizon []) ((withArray [.null] w).horizon []) :=
    .of_le (size_withArray [.null] w ▸ Nat.le_succ _)
  refine grounded_withArray (grounded_withArray hw hn (by grind)) (hn.trans hlater) ?_
  refine known_cons.mpr ⟨known_ref.mpr ⟨?_, nofun⟩, by grind⟩
  exact Nat.lt_of_lt_of_eq (Nat.lt_succ_self _) (size_withArray [.null] w).symm

theorem later_withBox (w : World) : Later (w.horizon []) ((withBox w).horizon []) := by
  refine .of_le (Nat.le_trans (Nat.le_add_right _ 2) (Nat.le_of_eq ?_))
  rw [withBox, size_withArray, size_withArray]
  rfl

theorem get_withBox (w : World) : (withBox w).heap.get ⟨w.size + 1⟩ =
      arrayOf setting.realm [.object ⟨w.size⟩, .bool true] ∧
    (withBox w).heap.get ⟨w.size⟩ = arrayOf setting.realm [.null] := by
  have hsize := size_withArray [.null] w
  have hthere : w.size < (withArray [.null] w).size := hsize ▸ Nat.lt_succ_self _
  exact ⟨hsize ▸ get_withArray .., (Heap.get_alloc_of_lt _ _ hthere).trans (get_withArray ..)⟩

theorem nests_withBox (w : World) :
    (withBox w).heap.Nests ((withBox w).heap.get ⟨w.size + 1⟩).elements.toList
      (.array ⟨w.size⟩ (.leaf .null .nil) (.leaf (.bool true) .nil)) := by
  obtain ⟨houter, hinner⟩ := get_withBox w
  rw [houter]
  refine .array (by rw [hinner]; rfl) ?_ (.leaf nofun .nil)
  rw [hinner]
  exact .leaf nofun .nil

end

/-- Two steps by one level make of that array what one step by two makes. -/
theorem box_flattened :
    (withBox initialWorld).Grounded [] ∧
    (contextIn "" false 3).Grounded ((withBox initialWorld).horizon []) ∧
    ((withBox initialWorld).heap.get ⟨initialWorld.size + 1⟩).isArray = true ∧
    (withBox initialWorld).heap.Acyclic ⟨initialWorld.size + 1⟩ ∧
    SameArray
      ((callArray .flat (.object ⟨initialWorld.size + 1⟩) [natValue 1] >>= fun a =>
        callArray .flat a [natValue 1]) (contextIn "" false 3) (withBox initialWorld))
      (callArray .flat (.object ⟨initialWorld.size + 1⟩) [natValue (1 + 1)]
        (contextIn "" false 3) (withBox initialWorld)) ∧
    callArray .flat (.object ⟨initialWorld.size + 1⟩) [natValue 7]
        (contextIn "" false 3) (withBox initialWorld) =
      newArray [.null, .bool true] (contextIn "" false 3) (withBox initialWorld) := by
  have hlater := later_withBox initialWorld
  have hgrounded := grounded_withBox initialWorld_grounded (.refl _)
  have hcontext : (contextIn "" false 3).Grounded ((withBox initialWorld).horizon []) :=
    ⟨known_realm_setting.mono hlater, (evaluator_grounded "" false 3).mono hlater⟩
  have harray : ((withBox initialWorld).heap.get ⟨initialWorld.size + 1⟩).isArray = true := by
    rw [(get_withBox _).1]
    rfl
  have hroom : (contextIn "" false 3).room ≤ recursionLimit := by decide
  have hnests := nests_withBox initialWorld
  obtain ⟨hlaid, hflat, -, -⟩ := flattening_composes hgrounded hcontext hroom harray
  obtain ⟨-, hcomposed, hleaves⟩ := hflat _ hnests
  exact ⟨hgrounded, hcontext, harray, hlaid.mp ⟨_, hnests⟩, hcomposed 1 1 (by decide),
    hleaves 7 (by decide) (by decide)⟩

theorem tower_nests {n i : Nat} (hi : i ≤ n) : ∃ t, (tower n).Nests [below i] t ∧ t.depth = i := by
  induction i with
  | zero => exact ⟨.leaf .null .nil, .leaf nofun .nil, rfl⟩
  | succ i ih =>
    obtain ⟨t, ht, hdepth⟩ := ih (Nat.le_of_succ_le hi)
    have hget := tower_get hi
    refine ⟨.array ⟨i⟩ t .nil, .array (by rw [hget]; rfl) (by rwa [hget]) .nil, ?_⟩
    rw [Nest.depth, hdepth, Nest.depth, Nat.max_zero]

/-- A tower is a nested array that leads back to none. One of which as many levels are to be opened
as there can be frames is not flattened. -/
theorem tall_towers_are_not_flattened :
    ((tower (recursionLimit + 1)).get ⟨recursionLimit⟩).isArray = true ∧
    (tower (recursionLimit + 1)).Acyclic ⟨recursionLimit⟩ ∧
    (∃ t, (tower (recursionLimit + 1)).Nests
        ((tower (recursionLimit + 1)).get ⟨recursionLimit⟩).elements.toList t ∧
      t.depth = recursionLimit) ∧
    callArray .flat (.object ⟨recursionLimit⟩) [natValue recursionLimit] (outermostContext "" false)
      { heap := tower (recursionLimit + 1) } =
        .broke (.fault .nestingTooDeep) { heap := tower (recursionLimit + 1) } := by
  have hget := tower_get (Nat.lt_succ_self recursionLimit)
  have harray : ((tower (recursionLimit + 1)).get ⟨recursionLimit⟩).isArray = true := by
    rw [hget]
    rfl
  have helements : ((tower (recursionLimit + 1)).get ⟨recursionLimit⟩).elements.toList =
      [below recursionLimit] := by
    rw [hget]
    rfl
  obtain ⟨t, ht, hdepth⟩ := tower_nests (Nat.le_succ recursionLimit)
  rw [← helements] at ht
  refine ⟨harray, (Heap.exists_nests_iff harray).mp ⟨t, ht⟩, ⟨t, ht, hdepth⟩, ?_⟩
  have hroom : (outermostContext "" false).room = recursionLimit := by decide
  rw [flat_of_nests harray ht (Nat.le_of_eq hroom), if_neg (by omega)]

end Stepper.Builtin
