import Stepper.Builtin.Collection
import Stepper.Proofs.Bits
import Stepper.Proofs.Freezing

/-!
Dictionaries and sets are lists that are searched with the equality of `includes`. What is stored is
such a list, each of its items filed under its key; every method answers as the list has it and
leaves the list as the method changes it, in any sequence of uses.
-/
namespace Stepper.Builtin

open Machine Machine.Action

/-! ### Lists that are searched -/

section

variable {α : Type} (label : α → Value) {a : α} {xs : List α}

/-- The item with a label. -/
def seek (k : Value) (xs : List α) : Option α := xs.find? fun a => k.sameOrNaN (label a)

/-- Puts an item where the one with its label is, or at the end. -/
def store (xs : List α) (a : α) : List α :=
  match xs.findIdx? fun b => (label a).sameOrNaN (label b) with
  | some i => xs.set i a
  | none => xs ++ [a]

/-- Puts an item at the end unless there is one with its label. -/
def enter (xs : List α) (a : α) : List α :=
  if (seek label (label a) xs).isSome then xs else xs ++ [a]

/-- Takes out the item with a label. -/
def takeOut (k : Value) (xs : List α) : List α := xs.eraseP fun a => k.sameOrNaN (label a)

/-- No two items have the same label. -/
def Apart (xs : List α) : Prop := xs.Pairwise fun a b => (label a).sameOrNaN (label b) = false

/-- The items, each under the key of its label. -/
def filed (xs : List α) : OrderedMap Key α := xs.map fun a => ((label a).key, a)

theorem sameOrNaN_eq (a b : Value) : a.sameOrNaN b = decide (a.key = b.key) := by
  rw [Bool.eq_iff_iff, ← Value.key_eq_iff, decide_eq_true_iff]

theorem values_filed (xs : List α) : (filed label xs).values = xs := by
  simp [filed, OrderedMap.values, Function.comp_def]

theorem get?_filed (k : Value) (xs : List α) :
    (filed label xs).get? k.key = seek label k xs := by
  induction xs with
  | nil => rfl
  | cons a xs ih =>
    simp only [filed, List.map_cons, OrderedMap.get?, seek, List.find?_cons, sameOrNaN_eq]
    by_cases h : k.key = (label a).key
    · simp [h]
    · simpa [h, filed, seek, sameOrNaN_eq] using ih

theorem has_filed (k : Value) (xs : List α) :
    (filed label xs).has k.key = (seek label k xs).isSome := by
  rw [OrderedMap.has, get?_filed]

theorem store_cons (b : α) (xs : List α) (a : α) : store label (b :: xs) a =
    if (label a).key = (label b).key then a :: xs else b :: store label xs a := by
  unfold store
  rw [List.findIdx?_cons, sameOrNaN_eq]
  by_cases h : (label a).key = (label b).key
  · simp [h]
  · simp only [h, decide_false, Bool.false_eq_true, if_false]
    cases xs.findIdx? fun b => (label a).sameOrNaN (label b) <;> rfl

theorem set_filed (xs : List α) (a : α) :
    (filed label xs).set (label a).key a = filed label (store label xs a) := by
  induction xs with
  | nil => rfl
  | cons b xs ih =>
    rw [store_cons]
    simp only [filed, List.map_cons, OrderedMap.set] at ih ⊢
    by_cases h : (label a).key = (label b).key
    · simp [h]
    · simp [h, ih]

theorem erase_filed (k : Value) (xs : List α) :
    (filed label xs).erase k.key = filed label (takeOut label k xs) := by
  induction xs with
  | nil => rfl
  | cons b xs ih =>
    simp only [filed, takeOut, List.map_cons, OrderedMap.erase, List.eraseP_cons, sameOrNaN_eq]
    by_cases h : k.key = (label b).key
    · simp [h]
    · simpa [h, filed, takeOut, sameOrNaN_eq] using ih

/-! No two items have one label exactly if no two are filed under one key. -/

theorem apart_iff (xs : List α) : Apart label xs ↔ (filed label xs).keys.Nodup := by
  simp [Apart, filed, OrderedMap.keys, List.Nodup, List.pairwise_map, sameOrNaN_eq]

variable {label}

theorem apart_store (h : Apart label xs) (a : α) : Apart label (store label xs a) := by
  rw [apart_iff] at h ⊢
  rw [← set_filed, OrderedMap.keys_set]
  split
  · exact h
  · rename_i hnew
    refine List.nodup_append.2 ⟨h, by simp, fun k hk l hl hkl => hnew ?_⟩
    rw [← List.mem_singleton.1 hl, ← hkl]
    exact hk

theorem apart_takeOut (h : Apart label xs) (k : Value) : Apart label (takeOut label k xs) :=
  h.sublist List.eraseP_sublist

theorem seek_eq_none {k : Value} : seek label k xs = none ↔ ∀ a ∈ xs, k.key ≠ (label a).key := by
  simp [seek, sameOrNaN_eq]

/-- An item takes the place of the one with its label. -/
theorem store_of_seek_eq_some {b : α} (h : seek label (label a) xs = some b) :
    ∃ before after, xs = before ++ b :: after ∧ store label xs a = before ++ a :: after := by
  induction xs with
  | nil => cases h
  | cons d xs ih =>
    rw [store_cons]
    rw [seek, List.find?_cons, sameOrNaN_eq] at h
    by_cases hd : (label a).key = (label d).key
    · rw [if_pos hd]
      rw [decide_eq_true hd] at h
      cases h
      exact ⟨[], xs, rfl, rfl⟩
    · rw [if_neg hd]
      rw [decide_eq_false hd] at h
      obtain ⟨before, after, hxs, hstore⟩ := ih h
      exact ⟨d :: before, after, congrArg (d :: ·) hxs, congrArg (d :: ·) hstore⟩

/-- An item with a new label goes to the end. -/
theorem store_of_seek_eq_none (h : seek label (label a) xs = none) :
    store label xs a = xs ++ [a] := by
  have hnone : xs.findIdx? (fun b => (label a).sameOrNaN (label b)) = none :=
    List.findIdx?_eq_none_iff.2 fun b hb => by simpa using List.find?_eq_none.1 h b hb
  rw [store, hnone]

theorem seek_takeOut (h : Apart label xs) (k : Value) :
    seek label k (takeOut label k xs) = none := by
  induction xs with
  | nil => rfl
  | cons b xs ih =>
    obtain ⟨hb, hxs⟩ := List.pairwise_cons.1 h
    by_cases hk : k.key = (label b).key
    · have htake : takeOut label k (b :: xs) = xs := by simp [takeOut, sameOrNaN_eq, hk]
      rw [htake, seek_eq_none, hk]
      intro c hc
      simpa [sameOrNaN_eq] using hb c hc
    · have htake : takeOut label k (b :: xs) = b :: takeOut label k xs := by
        simp [takeOut, sameOrNaN_eq, hk]
      rw [htake, seek_eq_none]
      exact List.forall_mem_cons.2 ⟨hk, seek_eq_none.1 (ih hxs)⟩

/-- What is taken out and put in again is at the end. -/
theorem store_takeOut (h : Apart label xs) (a : α) :
    store label (takeOut label (label a) xs) a = takeOut label (label a) xs ++ [a] :=
  store_of_seek_eq_none (seek_takeOut h (label a))

theorem apart_enter (h : Apart label xs) (a : α) : Apart label (enter label xs a) := by
  unfold enter
  split
  · exact h
  · rename_i hnew
    rw [← store_of_seek_eq_none (by simpa using hnew)]
    exact apart_store h a

/-- What keeps labels apart keeps them apart any number of times. -/
theorem apart_foldl {β : Type} {step : List α → β → List α}
    (hstep : ∀ {xs}, Apart label xs → ∀ b, Apart label (step xs b)) (h : Apart label xs)
    (bs : List β) : Apart label (bs.foldl step xs) := by
  induction bs generalizing xs with
  | nil => exact h
  | cons b bs ih => exact ih (hstep h b)

variable (label)

theorem ofList_filed (ys : List α) : OrderedMap.ofList (ys.map fun a => ((label a).key, a)) =
    filed label (ys.foldl (store label) []) := by
  have hfold (xs : List α) : (ys.map fun a => ((label a).key, a)).foldl
      (fun d p => OrderedMap.set p.1 p.2 d) (filed label xs) =
        filed label (ys.foldl (store label) xs) := by
    induction ys generalizing xs with
    | nil => rfl
    | cons y ys ih =>
      rw [List.map_cons, List.foldl_cons, List.foldl_cons, set_filed, ih]
  exact hfold []

end

theorem addToSet_filed (xs : List Value) (v : Value) :
    addToSet (filed id xs) v = filed id (enter id xs v) := by
  have hhas : (filed id xs).has v.key = (seek id v xs).isSome := has_filed id v xs
  rw [addToSet, hhas, enter]
  change _ = filed id (if (seek id v xs).isSome = true then xs else xs ++ [v])
  cases h : seek id v xs with
  | some a => rfl
  | none => exact (set_filed id xs v).trans (congrArg (filed id) (store_of_seek_eq_none h))

theorem foldl_addToSet (vs xs : List Value) :
    vs.foldl addToSet (filed id xs) = filed id (vs.foldl (enter id) xs) := by
  induction vs generalizing xs with
  | nil => rfl
  | cons v vs ih => rw [List.foldl_cons, List.foldl_cons, addToSet_filed, ih]

/-! ### Methods and constructors -/

/-- What a method gives. -/
inductive Reply where
  | value (v : Value)
  /-- A new array. -/
  | listing (members : List Value)
  /-- A new array of new arrays of two. -/
  | pairs (members : List (Value × Value))
  /-- A function is called with each of these arguments in turn. -/
  | calls (f this : Value) (arguments : List (List Value))

def Reply.give : Reply → Action Value
  | .value v => pure v
  | .listing members => newArray members
  | .pairs members => do newArray (← collect (fun p => newArray [p.1, p.2]) members)
  | .calls f this arguments => do
    callback f
    each (fun args => do let _ ← call f this args) arguments
    return .undefined

/-- The answer of a dictionary that holds these pairs of keys and values. -/
def mapReply (this : Value) (f : MapMethod) (args : List Value) (ps : List (Value × Value)) :
    Reply :=
  match f with
  | .get => .value (((seek Prod.fst (arg args 0) ps).map Prod.snd).getD .undefined)
  | .set => .value this
  | .has | .delete => .value (.bool (seek Prod.fst (arg args 0) ps).isSome)
  | .clear => .value .undefined
  | .forEach => .calls (arg args 0) (arg args 1) (ps.map fun p => [p.2, p.1, this])
  | .keys => .listing (ps.map Prod.fst)
  | .values => .listing (ps.map Prod.snd)
  | .entries => .pairs ps
  | .size => .value (natValue ps.length)

/-- The pairs that a method leaves. -/
def mapAfter (f : MapMethod) (args : List Value) (ps : List (Value × Value)) :
    List (Value × Value) :=
  match f with
  | .set => store Prod.fst ps (arg args 0, arg args 1)
  | .delete => takeOut Prod.fst (arg args 0) ps
  | .clear => []
  | .get | .has | .forEach | .keys | .values | .entries | .size => ps

/-- The answer of a set that holds these values. -/
def setReply (this : Value) (f : SetMethod) (args : List Value) (vs : List Value) : Reply :=
  match f with
  | .add => .value this
  | .has | .delete => .value (.bool (seek id (arg args 0) vs).isSome)
  | .clear => .value .undefined
  | .forEach => .calls (arg args 0) (arg args 1) (vs.map fun v => [v, v, this])
  | .values | .keys => .listing vs
  | .entries => .pairs (vs.map fun v => (v, v))
  | .size => .value (natValue vs.length)

def setAfter (f : SetMethod) (args : List Value) (vs : List Value) : List Value :=
  match f with
  | .add => enter id vs (arg args 0)
  | .delete => takeOut id (arg args 0) vs
  | .clear => []
  | .has | .forEach | .values | .keys | .entries | .size => vs

theorem apart_mapAfter {ps : List (Value × Value)} (h : Apart Prod.fst ps) (f : MapMethod)
    (args : List Value) : Apart Prod.fst (mapAfter f args ps) := by
  cases f with
  | set => exact apart_store h _
  | delete => exact apart_takeOut h _
  | clear => exact .nil
  | _ => exact h

theorem apart_setAfter {vs : List Value} (h : Apart id vs) (f : SetMethod) (args : List Value) :
    Apart id (setAfter f args vs) := by
  cases f with
  | add => exact apart_enter h _
  | delete => exact apart_takeOut h _
  | clear => exact .nil
  | _ => exact h

end Stepper.Builtin

namespace Stepper.Machine

variable {w : World} {r : Ref}

/-- The state in which an object holds something else. -/
def World.holding (w : World) (r : Ref) (content : Content) : World :=
  { w with heap := w.heap.modify r fun o => { o with content } }

theorem World.lt_of_content {content : Content} (h : (w.heap.get r).content = content)
    (hne : content ≠ .plain) : r.index < w.heap.objects.size := by
  refine Nat.lt_of_not_le fun hge => hne ?_
  rw [← h]
  simp [Heap.get, Array.getD_eq_getD_getElem?, Array.getElem?_eq_none hge]

theorem World.content_holding (hr : r.index < w.heap.objects.size) (content : Content) :
    ((w.holding r content).heap.get r).content = content := by
  rw [holding, Heap.get_modify_self _ _ hr]

/-- Only what becomes of the object itself counts. -/
theorem Heap.modify_congr {h : Heap} {f g : Object → Object} (hfg : f (h.get r) = g (h.get r)) :
    h.modify r f = h.modify r g := by
  obtain ⟨objects⟩ := h
  simp only [modify, get, Heap.mk.injEq] at hfg ⊢
  refine Array.ext (by rw [Array.size_modify, Array.size_modify]) fun i hi _ => ?_
  rw [Array.size_modify] at hi
  rw [Array.getElem_modify, Array.getElem_modify]
  split
  · rename_i he
    subst he
    simpa [Array.getD_eq_getD_getElem?, hi] using hfg
  · rfl

theorem Heap.modify_id (h : Heap) : h.modify r id = h := by
  obtain ⟨objects⟩ := h
  refine congrArg Heap.mk (Array.ext Array.size_modify fun i _ _ => ?_)
  rw [Array.getElem_modify, id_eq, ite_self]

/-- To hold what is held already changes nothing. -/
theorem World.holding_self {content : Content} (h : (w.heap.get r).content = content) :
    w.holding r content = w := by
  have hmodify : w.heap.modify r (fun o => { o with content }) = w.heap :=
    (Heap.modify_congr (by rw [← h]; rfl)).trans w.heap.modify_id
  simp [holding, hmodify]

end Stepper.Machine

namespace Stepper.Builtin

open Machine Machine.Action

variable {c : Context} {w : World} {r : Ref}

theorem object_then {α : Type} (r : Ref) (f : Object → Action α) (c : Context) (w : World) :
    (object r >>= f) c w = f (w.heap.get r) c w := rfl

theorem thisMap_eq {entries : MapEntries} (h : (w.heap.get r).content = .map entries)
    (method : String) : thisMap (.object r) method c w = .done (r, entries) w := by
  unfold thisMap
  dsimp only
  rw [object_then, h]
  rfl

theorem thisSet_eq {entries : SetEntries} (h : (w.heap.get r).content = .set entries)
    (method : String) : thisSet (.object r) method c w = .done (r, entries) w := by
  unfold thisSet
  dsimp only
  rw [object_then, h]
  rfl

theorem thisMap_bind {α : Type} {entries : MapEntries}
    (h : (w.heap.get r).content = .map entries) (method : String)
    (f : Ref × MapEntries → Action α) :
    (thisMap (.object r) method >>= f) c w = f (r, entries) c w := by
  change (thisMap (.object r) method c w).bind _ = _
  rw [thisMap_eq h]
  rfl

theorem thisSet_bind {α : Type} {entries : SetEntries}
    (h : (w.heap.get r).content = .set entries) (method : String)
    (f : Ref × SetEntries → Action α) :
    (thisSet (.object r) method >>= f) c w = f (r, entries) c w := by
  change (thisSet (.object r) method c w).bind _ = _
  rw [thisSet_eq h]
  rfl

/-- A callback is looked at, and nothing else happens where it is a function. -/
theorem callback_ends (f : Value) (c : Context) (w : World) :
    (callback f c w).Ends fun _ v => v = w := by
  change ((if (!w.heap.isCallable f) = true then
    (do typeError ((← toText f) ++ (" is not a function" : Text)) : Action Unit)
    else pure ()) c w).Ends fun _ v => v = w
  cases w.heap.isCallable f with
  | true => rfl
  | false =>
    have hends (x : Course Text) : x.Ends fun _ _ => True := by
      induction x with
      | done a v => trivial
      | broke i v => trivial
      | tell q v next ih => exact ih
    exact (hends (toText f c w)).bind fun _ _ _ => trivial

theorem callback_bind {α : Type} {f : Value} {x y : Action α} (h : x c w = y c w) :
    (callback f >>= fun _ => x) c w = (callback f >>= fun _ => y) c w :=
  (callback_ends f c w).bind_congr fun _ v hv => by
    subst hv
    exact h

theorem each_map {α β : Type} (f : β → Action Unit) (g : α → β) (as : List α) :
    each f (as.map g) c w = each (fun a => f (g a)) as c w := by
  induction as generalizing w with
  | nil => rfl
  | cons a as ih =>
    rw [List.map_cons, each_cons, each_cons]
    exact congrArg ((f (g a) c w).bind) (funext fun _ => funext fun v => ih)

theorem collect_map {α β γ : Type} (f : β → Action γ) (g : α → β) (as : List α) :
    collect f (as.map g) c w = collect (fun a => f (g a)) as c w := by
  have hrev (acc : List γ) (w : World) :
      collectRev f (as.map g) acc c w = collectRev (fun a => f (g a)) as acc c w := by
    induction as generalizing acc w with
    | nil => rfl
    | cons a as ih =>
      rw [List.map_cons, collectRev_cons, collectRev_cons]
      exact congrArg ((f (g a) c w).bind) (funext fun b => funext fun v => ih (b :: acc) v)
  exact congrArg (fun x : Course (List γ) => x.bind _) (hrev [] w)

/-- To change what each of several things gives is to change what all of them give. -/
theorem map_collect {α β γ : Type} (f : α → Action β) (g : β → γ) (as : List α) :
    collect (fun a => f a >>= fun b => pure (g b)) as c w =
      (collect f as c w).bind fun bs v => .done (bs.map g) v := by
  have hrev (acc : List β) (w : World) :
      collectRev (fun a => f a >>= fun b => pure (g b)) as (acc.map g) c w =
        (collectRev f as acc c w).bind fun bs v => .done (bs.map g) v := by
    induction as generalizing acc w with
    | nil => rfl
    | cons a as ih =>
      rw [collectRev_cons, collectRev_cons]
      have hstep : ((f a c w).bind fun b v => collectRev (fun a => f a >>= fun b => pure (g b)) as
          ((b :: acc).map g) c v) = (f a c w).bind fun b v =>
            (collectRev f as (b :: acc) c v).bind fun bs v => .done (bs.map g) v :=
        congrArg ((f a c w).bind) (funext fun b => funext fun v => ih (b :: acc) v)
      exact ((f a c w).bind_assoc _ _).trans (hstep.trans ((f a c w).bind_assoc _ _).symm)
  have hreverse (bs : List β) : (bs.map g).reverse = bs.reverse.map g := List.map_reverse.symm
  change (collectRev (fun a => f a >>= fun b => pure (g b)) as [] c w).bind _ =
    ((collectRev f as [] c w).bind _).bind _
  have hnil := hrev [] w
  rw [List.map_nil] at hnil
  rw [hnil, Course.bind_assoc, Course.bind_assoc]
  refine congrArg ((collectRev f as [] c w).bind) (funext fun bs => funext fun v => ?_)
  exact congrArg (Course.done · v) (hreverse bs)

/-- A pair that is read from a member of what a dictionary is made of. -/
def readPair (entry : Value) : Action (Value × Value) := do
  let k ← get entry "0"
  let v ← get entry "1"
  return (k, v)

def readPairs (source : Value) : Action (List (Value × Value)) := do
  if source.isNullish then pure [] else collect readPair (← iterate source)

def readValues (source : Value) : Action (List Value) := do
  if source.isNullish then pure [] else iterate source

/-- A dictionary with these pairs, put in one after the other. -/
def mapOf (proto : Ref) (ps : List (Value × Value)) : Object :=
  { proto := some proto, content := .map (filed Prod.fst (ps.foldl (store Prod.fst) [])) }

def setOf (proto : Ref) (vs : List Value) : Object :=
  { proto := some proto, content := .set (filed id (vs.foldl (enter id) [])) }

theorem readPair_filed (entry : Value) : (do
    let k ← get entry "0"
    let v ← get entry "1"
    pure (k.key, (k, v)) : Action (Key × Value × Value)) =
      readPair entry >>= fun p => pure (p.1.key, p) := by
  unfold readPair
  rw [Action.bind_assoc]
  refine congrArg (get entry "0" >>= ·) (funext fun k => ?_)
  exact (Action.bind_assoc (get entry "1") (fun v => pure (k, v)) fun p => pure (p.1.key, p)).symm

theorem constructMap_eq (args : List Value) (newTarget : Value) : constructMap args newTarget = do
    let proto ← prototypeFor newTarget (← realm).mapProto
    let ps ← readPairs (arg args 0)
    return .object (← alloc (mapOf proto ps)) := by
  unfold constructMap readPairs mapOf
  refine congrArg (fun k => realm >>= fun R => prototypeFor newTarget R.mapProto >>= k)
    (funext fun proto => ?_)
  simp only [readPair_filed, ← ofList_filed]
  cases (arg args 0).isNullish with
  | true => rfl
  | false =>
    funext c w
    refine .trans ?_ ((iterate (arg args 0) c w).bind_assoc _ _).symm
    refine congrArg (fun f => (iterate (arg args 0) c w).bind f)
      (funext fun entries => funext fun v => ?_)
    exact (congrArg (fun x : Course _ => x.bind _) (map_collect readPair _ entries)).trans
      (Course.bind_assoc ..)

theorem constructSet_eq (args : List Value) (newTarget : Value) : constructSet args newTarget = do
    let proto ← prototypeFor newTarget (← realm).setProto
    let vs ← readValues (arg args 0)
    return .object (← alloc (setOf proto vs)) := by
  have hset (vs : List Value) : vs.foldl addToSet [] = filed id (vs.foldl (enter id) []) :=
    foldl_addToSet vs []
  unfold constructSet readValues setOf
  simp only [← hset]
  refine congrArg (fun k => realm >>= fun R => prototypeFor newTarget R.setProto >>= k)
    (funext fun proto => ?_)
  cases (arg args 0).isNullish <;> rfl

theorem callMap_eq {ps : List (Value × Value)}
    (h : (w.heap.get r).content = .map (filed Prod.fst ps)) (f : MapMethod) (args : List Value) :
    callMap f (.object r) args c w = (mapReply (.object r) f args ps).give c
      (w.holding r (.map (filed Prod.fst (mapAfter f args ps)))) := by
  have hsame : w.holding r (.map (filed Prod.fst ps)) = w := World.holding_self h
  cases f with
  | get =>
    rw [mapAfter, hsame]
    refine (thisMap_bind h _ _).trans ?_
    rw [get?_filed Prod.fst]
    rfl
  | set =>
    refine (thisMap_bind h _ _).trans ?_
    have hset := set_filed Prod.fst ps (arg args 0, arg args 1)
    dsimp only at hset ⊢
    rw [hset]
    rfl
  | has =>
    rw [mapAfter, hsame]
    refine (thisMap_bind h _ _).trans ?_
    rw [has_filed Prod.fst]
    rfl
  | delete =>
    refine (thisMap_bind h _ _).trans ?_
    dsimp only
    rw [has_filed Prod.fst, erase_filed Prod.fst]
    rfl
  | clear => exact thisMap_bind h _ _
  | forEach =>
    rw [mapAfter, hsame]
    refine callback_bind ((thisMap_bind h _ _).trans ?_)
    dsimp only
    rw [values_filed]
    exact congrArg (fun x : Course Unit => x.bind _) (each_map
      (fun arguments => call (arg args 0) (arg args 1) arguments >>= fun _ => pure ())
      (fun p => [p.2, p.1, .object r]) ps).symm
  | keys =>
    rw [mapAfter, hsame]
    refine (thisMap_bind h _ _).trans ?_
    rw [values_filed]
    rfl
  | values =>
    rw [mapAfter, hsame]
    refine (thisMap_bind h _ _).trans ?_
    rw [values_filed]
    rfl
  | entries =>
    rw [mapAfter, hsame]
    refine (thisMap_bind h _ _).trans ?_
    have hiterate : iterate (.object r) c w =
        collect (fun p : Value × Value => newArray [p.1, p.2]) ps c w := by
      unfold iterate
      dsimp only
      rw [object_then, h]
      exact congrArg (fun ps => collect _ ps c w) (values_filed Prod.fst ps)
    exact congrArg (fun x : Course (List Value) => x.bind _) hiterate
  | size =>
    rw [mapAfter, hsame]
    refine (thisMap_bind h _ _).trans ?_
    simp [filed]
    rfl

theorem callSet_eq {vs : List Value} (h : (w.heap.get r).content = .set (filed id vs))
    (f : SetMethod) (args : List Value) :
    callSet f (.object r) args c w = (setReply (.object r) f args vs).give c
      (w.holding r (.set (filed id (setAfter f args vs)))) := by
  have hsame : w.holding r (.set (filed id vs)) = w := World.holding_self h
  cases f with
  | add =>
    refine (thisSet_bind h _ _).trans ?_
    dsimp only
    rw [addToSet_filed]
    rfl
  | has =>
    rw [setAfter, hsame]
    refine (thisSet_bind h _ _).trans ?_
    rw [has_filed id]
    rfl
  | delete =>
    refine (thisSet_bind h _ _).trans ?_
    dsimp only
    rw [has_filed id, erase_filed id]
    rfl
  | clear => exact thisSet_bind h _ _
  | forEach =>
    rw [setAfter, hsame]
    refine callback_bind ((thisSet_bind h _ _).trans ?_)
    dsimp only
    rw [values_filed]
    exact congrArg (fun x : Course Unit => x.bind _) (each_map
      (fun arguments => call (arg args 0) (arg args 1) arguments >>= fun _ => pure ())
      (fun v => [v, v, .object r]) vs).symm
  | values | keys =>
    rw [setAfter, hsame]
    refine (thisSet_bind h _ _).trans ?_
    rw [values_filed]
    rfl
  | entries =>
    rw [setAfter, hsame]
    refine (thisSet_bind h _ _).trans ?_
    dsimp only
    rw [values_filed]
    exact congrArg (fun x : Course (List Value) => x.bind _) (collect_map
      (fun p : Value × Value => newArray [p.1, p.2]) (fun v => (v, v)) vs).symm
  | size =>
    rw [setAfter, hsame]
    refine (thisSet_bind h _ _).trans ?_
    simp [filed]
    rfl

/-! ### Sequences of uses -/

/-- What is kept while arrays are made: the object is there and holds what it held. -/
def Held (r : Ref) (content : Content) (w : World) : Prop :=
  r.index < w.heap.objects.size ∧ (w.heap.get r).content = content

theorem newArray_held {content : Content} (es : List Value) (h : Held r content w) :
    (newArray es c w).Ends fun _ v => Held r content v := by
  refine ⟨Nat.lt_of_lt_of_le h.1 (w.heap.evolves_alloc _).size, ?_⟩
  change ((w.heap.alloc _).2.get r).content = content
  rw [Heap.get_alloc_of_lt w.heap _ h.1, h.2]

theorem collect_held {α β : Type} {content : Content} {f : α → Action β}
    (hf : ∀ a w, Held r content w → (f a c w).Ends fun _ v => Held r content v) (as : List α)
    (h : Held r content w) : (collect f as c w).Ends fun _ v => Held r content v := by
  have hrev (acc : List β) (w : World) (h : Held r content w) :
      (collectRev f as acc c w).Ends fun _ v => Held r content v := by
    induction as generalizing acc w with
    | nil => exact h
    | cons a as ih =>
      rw [collectRev_cons]
      exact (hf a w h).bind fun b v hv => ih (b :: acc) v hv
  exact (hrev [] w h).bind fun _ _ hv => hv

/-- The function that a reply calls, if it calls one. -/
def Reply.callee? : Reply → Option Value
  | .calls f _ _ => some f
  | _ => none

/-- What gives a value or makes arrays leaves the object as it is. -/
theorem Reply.give_held {reply : Reply} (hreply : reply.callee? = none) {content : Content}
    (h : Held r content w) : (reply.give c w).Ends fun _ v => Held r content v := by
  cases reply with
  | value v => exact h
  | listing members => exact newArray_held members h
  | pairs members =>
    exact (collect_held (fun p _ hv => newArray_held [p.1, p.2] hv) members h).bind
      fun es _ hv => newArray_held es hv
  | calls f this arguments => cases hreply

/-- The object is used by its methods, with anything in between that leaves alone what it holds.
`visit` is the method that only calls a function for what is there when it begins: uses that are
made by that function come after it. -/
inductive Uses {F : Type} (method : F → Value → List Value → Action Value) (visit : F)
    (c : Context) (r : Ref) : World → List (F × List Value) → World → Prop where
  | start (w : World) : Uses method visit c r w [] w
  | use {f : F} {args : List Value} {a : Value} {w v u : World} {uses : List (F × List Value)}
      (hf : f ≠ visit) (h : method f (.object r) args c w = .done a v)
      (later : Uses method visit c r v uses u) : Uses method visit c r w ((f, args) :: uses) u
  | visit {args : List Value} {w u : World} {uses : List (F × List Value)}
      (later : Uses method visit c r w uses u) : Uses method visit c r w ((visit, args) :: uses) u
  | meanwhile {w v u : World} {uses : List (F × List Value)}
      (h : (v.heap.get r).content = (w.heap.get r).content)
      (later : Uses method visit c r v uses u) : Uses method visit c r w uses u

/-- The items that uses leave. -/
def afterAll {F α : Type} (after : F → List Value → List α → List α)
    (uses : List (F × List Value)) (xs : List α) : List α :=
  uses.foldl (fun xs use => after use.1 use.2 xs) xs

/-- If each method gives a value or makes arrays and leaves the items as it should, the object holds
after all uses what they leave together. -/
theorem Uses.content {F α : Type} {method : F → Value → List Value → Action Value} {visit : F}
    {u : World} {uses : List (F × List Value)} {xs : List α}
    (huses : Uses method visit c r w uses u) (stored : List α → Content)
    (after : F → List Value → List α → List α)
    (hmethod : ∀ {w xs}, (w.heap.get r).content = stored xs → ∀ f, f ≠ visit → ∀ args,
      ∃ reply : Reply, reply.callee? = none ∧
        method f (.object r) args c w = reply.give c (w.holding r (stored (after f args xs))))
    (hvisit : ∀ args xs, after visit args xs = xs) (hplain : ∀ xs, stored xs ≠ .plain)
    (h : (w.heap.get r).content = stored xs) :
    (u.heap.get r).content = stored (afterAll after uses xs) := by
  induction huses generalizing xs with
  | start w => exact h
  | @use f args a w v u uses hf huse later ih =>
    obtain ⟨reply, hreply, heq⟩ := hmethod h f hf args
    have hr := World.lt_of_content h (hplain xs)
    have hheld : Held r (stored (after f args xs)) (w.holding r (stored (after f args xs))) :=
      ⟨by simpa [World.holding, Heap.modify] using hr, World.content_holding hr _⟩
    have hgive := Reply.give_held (c := c) hreply hheld
    rw [← heq, huse] at hgive
    exact ih hgive.2
  | @visit args w u uses later ih =>
    have hnext := ih h
    rwa [afterAll, List.foldl_cons, hvisit]
  | meanwhile hsame later ih => exact ih (hsame.trans h)

theorem map_content {u : World} {uses : List (MapMethod × List Value)}
    (huses : Uses callMap .forEach c r w uses u) {ps : List (Value × Value)}
    (h : (w.heap.get r).content = .map (filed Prod.fst ps)) :
    (u.heap.get r).content = .map (filed Prod.fst (afterAll mapAfter uses ps)) := by
  refine huses.content (fun ps => .map (filed Prod.fst ps)) mapAfter
    (fun h f hf args => ⟨_, ?_, callMap_eq h f args⟩) (fun _ _ => rfl)
    (fun _ hplain => Content.noConfusion hplain) h
  cases f with
  | forEach => exact absurd rfl hf
  | _ => rfl

theorem set_content {u : World} {uses : List (SetMethod × List Value)}
    (huses : Uses callSet .forEach c r w uses u) {vs : List Value}
    (h : (w.heap.get r).content = .set (filed id vs)) :
    (u.heap.get r).content = .set (filed id (afterAll setAfter uses vs)) := by
  refine huses.content (fun vs => .set (filed id vs)) setAfter
    (fun h f hf args => ⟨_, ?_, callSet_eq h f args⟩) (fun _ _ => rfl)
    (fun _ hplain => Content.noConfusion hplain) h
  cases f with
  | forEach => exact absurd rfl hf
  | _ => rfl

/-- Objects of a kind are lists that are searched by their labels: each method gives what the list
gives and leaves what it leaves, and so do any uses in sequence, after which no two items have the
same label if none had before. -/
structure Searches {F α : Type} (label : α → Value) (stored : List α → Content)
    (method : F → Value → List Value → Action Value) (visit : F)
    (reply : Value → F → List Value → List α → Reply)
    (after : F → List Value → List α → List α) (c : Context) : Prop where
  answers : ∀ {w : World} {r : Ref} {xs : List α}, (w.heap.get r).content = stored xs →
    ∀ f args, method f (.object r) args c w =
      (reply (.object r) f args xs).give c (w.holding r (stored (after f args xs)))
  uses : ∀ {w u : World} {r : Ref} {uses : List (F × List Value)} {xs : List α},
    (w.heap.get r).content = stored xs → Uses method visit c r w uses u →
      (u.heap.get r).content = stored (afterAll after uses xs)
  apart : ∀ {uses : List (F × List Value)} {xs : List α}, Apart label xs →
    Apart label (afterAll after uses xs)

/-- Dictionaries and sets are lists that are searched with the equality of `includes`, made by
putting in one item after the other. What is put in takes the place of what is the same, or the end;
and when it was taken out before, the end. -/
theorem collections_are_searched_lists (c : Context) :
    (∀ a b : Value, a.key = b.key ↔ a.sameOrNaN b = true) ∧
    (∀ {α : Type} (label : α → Value) (xs : List α) (a : α), Apart label xs →
      (∀ b, seek label (label a) xs = some b → ∃ before after, xs = before ++ b :: after ∧
        store label xs a = before ++ a :: after) ∧
      store label (takeOut label (label a) xs) a = takeOut label (label a) xs ++ [a]) ∧
    Searches Prod.fst (fun ps => .map (filed Prod.fst ps)) callMap .forEach mapReply mapAfter c ∧
    Searches id (fun vs => .set (filed id vs)) callSet .forEach setReply setAfter c ∧
    (∀ args newTarget, constructMap args newTarget = do
      let proto ← prototypeFor newTarget (← realm).mapProto
      let ps ← readPairs (arg args 0)
      return .object (← alloc (mapOf proto ps))) ∧
    (∀ args newTarget, constructSet args newTarget = do
      let proto ← prototypeFor newTarget (← realm).setProto
      let vs ← readValues (arg args 0)
      return .object (← alloc (setOf proto vs))) ∧
    (∀ ps : List (Value × Value), Apart Prod.fst (ps.foldl (store Prod.fst) [])) ∧
    ∀ vs : List Value, Apart id (vs.foldl (enter id) []) :=
  ⟨Value.key_eq_iff,
    fun _ _ _ h => ⟨fun _ hseek => store_of_seek_eq_some hseek, store_takeOut h _⟩,
    ⟨fun h f args => callMap_eq h f args, fun h huses => map_content huses h,
      fun h => apart_foldl (fun h use => apart_mapAfter h use.1 use.2) h _⟩,
    ⟨fun h f args => callSet_eq h f args, fun h huses => set_content huses h,
      fun h => apart_foldl (fun h use => apart_setAfter h use.1 use.2) h _⟩,
    constructMap_eq, constructSet_eq, apart_foldl apart_store .nil, apart_foldl apart_enter .nil⟩

/-- A state with one dictionary. -/
def mapWorld (ps : List (Value × Value)) : World :=
  { heap := ⟨#[{ content := .map (filed Prod.fst ps) }]⟩ }

/-- Negative zero takes the place of zero, behind NaN. -/
theorem mapWorld_searches :
    (∃ w, Uses callMap .forEach (Execution.outermostContext "" false) ⟨0⟩
        (mapWorld [(.number Binary64.nan, .null), (.number zero, .null)])
        [(.set, [.number (-zero), .bool true])] w ∧
      (w.heap.get ⟨0⟩).content =
        .map (filed Prod.fst [(.number Binary64.nan, .null), (.number (-zero), .bool true)])) ∧
    callMap .has (.object ⟨0⟩) [.number Binary64.nan] (Execution.outermostContext "" false)
        (mapWorld [(.number Binary64.nan, .null)]) =
      .done (.bool true) (mapWorld [(.number Binary64.nan, .null)]) := by
  obtain ⟨-, -, hmap, -⟩ := collections_are_searched_lists (Execution.outermostContext "" false)
  have huses : Uses callMap .forEach (Execution.outermostContext "" false) ⟨0⟩
      (mapWorld [(.number Binary64.nan, .null), (.number zero, .null)])
      [(.set, [.number (-zero), .bool true])] _ :=
    .use (by decide) (hmap.answers rfl .set [.number (-zero), .bool true]) (.start _)
  have hafter : afterAll mapAfter [(.set, [.number (-zero), .bool true])]
      [(.number Binary64.nan, .null), (.number zero, .null)] =
        [(.number Binary64.nan, .null), (.number (-zero), .bool true)] := rfl
  refine ⟨⟨_, huses, ?_⟩, ?_⟩
  · rw [hmap.uses rfl huses, hafter]
  · have hheld : ((mapWorld [(.number Binary64.nan, .null)]).heap.get ⟨0⟩).content =
        .map (filed Prod.fst [(.number Binary64.nan, .null)]) := rfl
    exact (hmap.answers hheld .has [.number Binary64.nan]).trans rfl

end Stepper.Builtin
