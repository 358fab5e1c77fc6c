import Stepper.Proofs.Rendering

/-!
Data that nests too deep to be written. To write an array takes three frames for every level of the
array; so however many there are, some data nests deeper, and to write it ends the run. Such data is
soon made: the entries of an array that holds one value nest one level deeper than that value, so a
fold by `Object.entries` makes a level of each item, all in the same frames.
-/
namespace Stepper.Machine

namespace Heap

variable {h h' : Heap}

/-- Whatever was there is as it was. -/
structure Grows (h h' : Heap) : Prop where
  size : h.objects.size ≤ h'.objects.size
  get : ∀ r : Ref, r.index < h.objects.size → h'.get r = h.get r

theorem Grows.refl (h : Heap) : h.Grows h := ⟨Nat.le_refl _, fun _ _ => rfl⟩

theorem Grows.trans {h'' : Heap} (h₁ : h.Grows h') (h₂ : h'.Grows h'') : h.Grows h'' where
  size := Nat.le_trans h₁.size h₂.size
  get r hr := by rw [h₂.get r (Nat.lt_of_lt_of_le hr h₁.size), h₁.get r hr]

theorem grows_alloc (h : Heap) (o : Object) : h.Grows (h.alloc o).2 where
  size := by simp [Heap.alloc]
  get r hr := by
    simp only [Heap.get, Heap.alloc, Array.getD_eq_getD_getElem?, Array.getElem?_push_lt hr,
      Array.getElem?_eq_getElem hr]

theorem get_alloc (h : Heap) (o : Object) : (h.alloc o).2.get (h.alloc o).1 = o := by
  simp [Heap.get, Heap.alloc]

/-- No object of a chain has a property, and all of them are there. -/
inductive Lacks (h : Heap) (k : Text) : Ref → Prop where
  | intro {r : Ref} (there : r.index < h.objects.size)
      (none : (h.get r).properties.get? k = none)
      (inherited : ∀ p, (h.get r).proto = some p → Lacks h k p) : Lacks h k r

theorem Lacks.there {k : Text} {r : Ref} (hr : h.Lacks k r) : r.index < h.objects.size := by
  cases hr with
  | intro there => exact there

theorem Lacks.climb {k : Text} {r : Ref} (hr : h.Lacks k r) (n : Nat) :
    h.climb (h.askSlot k) none n (some r) = none := by
  induction hr generalizing n with
  | @intro r there hnone hon ih =>
    cases n with
    | zero => rfl
    | succ n =>
      simp only [Heap.climb, Heap.askSlot, hnone, Option.map_none]
      cases hp : (h.get r).proto with
      | none => exact h.climb_none ..
      | some p => exact ih p hp n

theorem Lacks.lookup {k : Text} {r : Ref} (hr : h.Lacks k r) : h.lookup k r = none := hr.climb _

theorem Lacks.grows {k : Text} {r : Ref} (hr : h.Lacks k r) (hgrows : h.Grows h') :
    h'.Lacks k r := by
  induction hr with
  | intro there hnone hon ih =>
    have hget := hgrows.get _ there
    exact ⟨Nat.lt_of_lt_of_le there hgrows.size, hget ▸ hnone, fun p hp => ih p (hget ▸ hp)⟩

end Heap
end Stepper.Machine

namespace Stepper.Builtin

open Machine Machine.Action Execution

/-- An array that holds a value, and a text before it at most. It is younger than what it holds, and
stands for itself where it is written. -/
structure Level (h : Heap) (r : Ref) (v : Value) : Prop where
  there : r.index < h.objects.size
  elements : ∃ before : List Text, before.length ≤ 1 ∧
    (h.get r).content = .array (before.map Value.text ++ [v]).toArray
  toJSON : h.Lacks "toJSON" r
  older : ∀ q, v = .object q → q.index < r.index

/-- A value behind so many levels. -/
inductive Nested (h : Heap) : Nat → Value → Prop where
  | primitive {v : Value} (hv : v.isPrimitive = true) : Nested h 0 v
  | level {n : Nat} {r : Ref} {v : Value} (hr : Level h r v) (hv : Nested h n v) :
      Nested h (n + 1) (.object r)

variable {h h' : Heap} {n frames : Nat} {v : Value} {r : Ref}

/-- A level stays one when objects are made. -/
theorem Level.grows (hgrows : h.Grows h') (hr : Level h r v) : Level h' r v where
  there := Nat.lt_of_lt_of_le hr.there hgrows.size
  elements := by rw [hgrows.get r hr.there]; exact hr.elements
  toJSON := hr.toJSON.grows hgrows
  older := hr.older

/-- Nested data stays so when objects are made. -/
theorem Nested.grows (hgrows : h.Grows h') (hv : Nested h n v) : Nested h' n v := by
  induction hv with
  | primitive hv => exact .primitive hv
  | level hr _ ih => exact .level (hr.grows hgrows) ih

/-- A path to a value leads through objects that are younger. -/
def Leads (path : List Ref) (v : Value) : Prop :=
  ∀ q ∈ path, ∀ r, v = .object r → r.index < q.index

/-- A level may be opened on a path that leads to it. -/
theorem Leads.cons {path : List Ref} (hpath : Leads path (.object r)) (hr : Level h r v) :
    Leads (r :: path) v := by
  intro q hq s hs
  rcases List.mem_cons.mp hq with rfl | hq
  · exact hr.older s hs
  · exact Nat.lt_trans (hr.older s hs) (hpath q hq r rfl)

section

variable {α β : Type} {c : Context} {w : World} {i : Interrupt}

/-- A round that goes on is followed by the rest. -/
theorem loop_of_inl {body : α → Action (α ⊕ β)} {a : α} (a' : α) (w' : World)
    (h : body a c w = .done (.inl a') w') (fuel : Nat) :
    loop body (fuel + 1) a c w = loop body fuel a' c w' := by
  rw [loop_succ]
  exact bind_of_done h _

theorem loop_of_inr {body : α → Action (α ⊕ β)} {w' : World} {a : α} {b : β}
    (h : body a c w = .done (.inr b) w') (fuel : Nat) :
    loop body (fuel + 1) a c w = .done b w' := by
  rw [loop_succ]
  exact bind_of_done h _

end

/-- The prototype of arrays gives them no form of their own in JSON. -/
def PlainArrays (realm : Realm) (h : Heap) : Prop := h.Lacks "toJSON" realm.arrayProto

def arrayOf (realm : Realm) (es : List Value) : Object :=
  { proto := some realm.arrayProto, content := .array es.toArray }

/-- A new array is allocated with its elements. -/
theorem newArray_eq (es : List Value) (c : Context) (w : World) :
    newArray es c w = .done (.object (w.heap.alloc (arrayOf c.realm es)).1)
      { w with heap := (w.heap.alloc (arrayOf c.realm es)).2 } := rfl

/-- An array around data is a level of it. -/
theorem level_alloc {realm : Realm} (hrealm : PlainArrays realm h) (before : List Text)
    (hbefore : before.length ≤ 1) (hv : ∀ q, v = .object q → q.index < h.objects.size) :
    Level (h.alloc (arrayOf realm (before.map Value.text ++ [v]))).2
      (h.alloc (arrayOf realm (before.map Value.text ++ [v]))).1 v where
  there := by simp [Heap.alloc]
  elements := ⟨before, hbefore, by rw [Heap.get_alloc]; rfl⟩
  toJSON := by
    refine ⟨by simp [Heap.alloc], by rw [Heap.get_alloc]; rfl, fun p hp => ?_⟩
    rw [Heap.get_alloc] at hp
    cases hp
    exact Heap.Lacks.grows hrealm (h.grows_alloc _)
  older := hv

/-- An array with one element and nothing beside it. -/
structure Box (h : Heap) (r : Ref) (v : Value) : Prop extends Level h r v where
  content : (h.get r).content = .array #[v]
  properties : (h.get r).properties = []

/-- An array of one value is a box of it. -/
theorem box_alloc {realm : Realm} (hrealm : PlainArrays realm h)
    (hv : ∀ q, v = .object q → q.index < h.objects.size) :
    Box (h.alloc (arrayOf realm [v])).2 (h.alloc (arrayOf realm [v])).1 v where
  toLevel := level_alloc hrealm [] (Nat.zero_le 1) hv
  content := by rw [Heap.get_alloc]; rfl
  properties := by rw [Heap.get_alloc]; rfl

section

variable {c : Context} {w : World}

theorem collect_singleton {α β : Type} {f : α → Action β} {a : α} {b : β} {w' : World}
    (h : f a c w = .done b w') : collect f [a] c w = .done [b] w' := by
  have hrev : collectRev f [a] [] c w = .done [b] w' := by
    unfold collectRev
    rw [h]
    rfl
  exact bind_of_done hrev _

/-- A box has one key. -/
theorem Box.enumerableKeys_eq (hr : Box w.heap r v) :
    enumerableKeys (.object r) c w = .done [indexKey 0] w := by
  have hown : (w.heap.get r).ownKeys = .ok [indexKey 0] := by
    unfold Object.ownKeys
    rw [hr.content, hr.properties]
    rfl
  unfold enumerableKeys
  simp only
  rw [bind_of_done (rfl : object r c w = .done (w.heap.get r) w), hown]
  change Course.done (List.filter _ [indexKey 0]) w = _
  rw [hr.properties]
  rfl

theorem arrayIndex?_zero : arrayIndex? (indexKey 0) = .ok (some 0) := by
  have hkey : isIndexKey (indexKey 0) = true := by decide +kernel
  have hread : (Number.readInteger 10 (indexKey 0)).toOption = some 0 := by decide +kernel
  unfold arrayIndex?
  rw [if_pos hkey]
  cases hn : Number.readInteger 10 (indexKey 0) with
  | error f =>
    rw [hn] at hread
    cases hread
  | ok n =>
    rw [hn] at hread
    cases hread
    rfl

/-- What is in a box is read under its key. -/
theorem Box.get_eq (hr : Box w.heap r v) : get (.object r) (indexKey 0) c w = .done v w := by
  have hlength : (indexKey 0 == Text.ofString "length") = false := by decide +kernel
  change getOwnOrInherited r _ c w = _
  unfold getOwnOrInherited
  rw [bind_of_done (rfl : object r c w = .done (w.heap.get r) w), hr.content]
  simp only [arrayIndex?_zero, hlength]
  rfl

/-- The entries of such an array are such an array again, which holds one level more. -/
theorem Box.entries (hr : Box w.heap r v) (hv : Nested w.heap n v)
    (hrealm : PlainArrays c.realm w.heap) (this : Value) (args : List Value) :
    ∃ h' s u, w.heap.Grows h' ∧ Box h' s u ∧ Nested h' (n + 1) u ∧
      callObject .entries this (.object r :: args) c w =
        .done (.object s) { w with heap := h' } := by
  have hentry : Level (w.heap.alloc (arrayOf c.realm [.text (indexKey 0), v])).2
      (w.heap.alloc (arrayOf c.realm [.text (indexKey 0), v])).1 v :=
    level_alloc hrealm [indexKey 0] (Nat.le_refl 1) fun q hq =>
      Nat.lt_trans (hr.older q hq) hr.there
  have hgrows := w.heap.grows_alloc (arrayOf c.realm [.text (indexKey 0), v])
  generalize hnew : w.heap.alloc (arrayOf c.realm [.text (indexKey 0), v]) = entry at *
  have hbox := box_alloc (hrealm.grows hgrows) (v := .object entry.1) fun q hq => by
    cases hq
    exact hentry.there
  refine ⟨_, _, .object entry.1, hgrows.trans (entry.2.grows_alloc _), hbox,
    .level (hentry.grows (entry.2.grows_alloc _))
      ((hv.grows hgrows).grows (entry.2.grows_alloc _)), ?_⟩
  have hkeys : entriesOf (.object r) c w = .done [.object entry.1] { w with heap := entry.2 } := by
    unfold entriesOf
    rw [bind_of_done hr.enumerableKeys_eq]
    refine collect_singleton ?_
    rw [bind_of_done hr.get_eq, newArray_eq, hnew]
  change (entriesOf (.object r) >>= _) c w = _
  rw [bind_of_done hkeys]
  rfl

/-- A loop over a list that keeps a property which counts its rounds. -/
theorem loop_of_rounds {α β : Type} {body : α × List β → Action ((α × List β) ⊕ α)}
    {P : Nat → α → World → Prop} {bs : List β}
    (hround : ∀ n a w, P n a w → ∀ b ∈ bs, ∀ rest, ∃ a' w', P (n + 1) a' w' ∧
      body (a, b :: rest) c w = .done (.inl (a', rest)) w')
    (hend : ∀ a w, body (a, []) c w = .done (.inr a) w) {a : α} (h : P n a w) {fuel : Nat}
    (hfuel : bs.length < fuel) :
    ∃ a' w', P (n + bs.length) a' w' ∧ loop body fuel (a, bs) c w = .done a' w' := by
  induction bs generalizing n a w fuel with
  | nil =>
    obtain ⟨fuel, rfl⟩ := Nat.exists_eq_add_one.mpr hfuel
    exact ⟨a, w, h, loop_of_inr (hend a w) fuel⟩
  | cons b bs ih =>
    obtain ⟨fuel, rfl⟩ := Nat.exists_eq_add_one.mpr (Nat.zero_lt_of_lt hfuel)
    obtain ⟨a', w', h', hbody⟩ := hround n a w h b (by simp) bs
    obtain ⟨a'', w'', h'', hloop⟩ := ih
      (fun n a w h c hc => hround n a w h c (by simp [hc])) h' (Nat.lt_of_succ_lt_succ hfuel)
    refine ⟨a'', w'', ?_, (loop_of_inl _ _ hbody fuel).trans hloop⟩
    rw [List.length_cons, Nat.add_comm bs.length, ← Nat.add_assoc]
    exact h''

/-- What has been made of an array with one element: another one, in a heap that has grown. -/
structure Wraps (w : World) (n : Nat) (v : Value) (w' : World) : Prop where
  heap : w.heap.Grows w'.heap
  rest : w' = { w with heap := w'.heap }
  box : ∃ r u, v = .object r ∧ Box w'.heap r u ∧ Nested w'.heap n u

/-- To fold an array by `Object.entries` makes a level of each of its elements. -/
theorem reduceOver_entries {d : Context} (hc : c.inner = evaluatorIn d) {a f : Ref} {name : Text}
    (hf : (w.heap.get f).content = .native name (.object .entries))
    (hthere : f.index < w.heap.objects.size) {es : Array Value} (hes : (w.heap.get a).content = .array es)
    (ha : a.index < w.heap.objects.size) (hrealm : PlainArrays d.realm w.heap)
    (hr : Box w.heap r v) (hv : Nested w.heap n v) {is : List Nat} (his : ∀ i ∈ is, i < es.size)
    (hrounds : is.length < maxRounds) :
    ∃ u w', Wraps w (n + is.length) u w' ∧
      reduceOver a (.object f) (.object r) is c w = .done u w' := by
  refine loop_of_rounds (P := fun n v w' => Wraps w n v w') ?_ (fun v w' => rfl)
    ⟨.refl _, rfl, r, v, rfl, hr, hv⟩ hrounds
  rintro n - w' ⟨hgrows, hrest, r, v, rfl, hr, hv⟩ i hi rest
  have hlt : i < es.size := his i hi
  have helement : ((w'.heap.get a).elements)[i]? = some (es[i]) := by
    rw [hgrows.get a ha]
    simp [Object.elements, hes, hlt]
  obtain ⟨h', s, u, hgrows', hbox, hnested, hentries⟩ :=
    hr.entries (c := d) hv (hrealm.grows hgrows) .undefined
      [es[i], natValue i, .object a]
  have hcall : call (.object f) .undefined [.object r, es[i], natValue i, .object a] c w' =
      .done (.object s) { w' with heap := h' } := by
    change c.inner.call _ _ _ w' = _
    rw [hc]
    change callValue (.object f) .undefined _ d w' = _
    unfold callValue
    simp only
    rw [bind_of_done (rfl : object f d w' = .done (w'.heap.get f) w'), hgrows.get f hthere, hf]
    exact hentries
  refine ⟨.object s, { w' with heap := h' },
    ⟨hgrows.trans hgrows', by rw [hrest], s, u, rfl, hbox, hnested⟩, ?_⟩
  simp only
  rw [bind_of_done (rfl : elementsOf a c w' = .done (w'.heap.get a).elements w')]
  simp only [helement]
  rw [bind_of_done hcall]
  rfl

end

end Stepper.Builtin
