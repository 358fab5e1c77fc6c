import Stepper.Execution.Run

/-!
What the console shows of plain data. To write a value as JSON runs functions of the program in
general: getters, and methods named `toJSON`. Where there are none of these, and no object holds
itself, the text of a value depends on the heap alone, and to write it leaves everything as it was,
if there are frames enough for the levels of the value: three for an array, two for a record.
-/
namespace Stepper.Machine.Object

/-- Objects of which the properties are written. -/
def isRecord (o : Object) : Bool := match o.content with
  | .plain | .date _ => true
  | _ => false

theorem isRecord_iff {o : Object} :
    o.isRecord = true ↔ o.content = .plain ∨ ∃ time, o.content = .date time := by
  unfold isRecord
  cases o.content <;> simp

end Stepper.Machine.Object

namespace Stepper.Builtin

open Machine Machine.Action

/-- The keys under which the properties of an object are written. -/
def writtenKeys (o : Object) : List Text := (orderedKeys o.properties.keys).toOption.getD []

def keysAreListed (o : Object) : Bool := (orderedKeys o.properties.keys).toOption.isSome

/-- Whether to write a value inside some objects takes nothing but reading, and there are frames
enough. -/
def writable (h : Heap) : Nat → List Ref → Value → Bool
  | 0, _, _ => false
  | frames + 1, path, .object r =>
    let o := h.get r
    o.isCallable || !path.contains r && (h.lookup "toJSON" r).isNone && match o.content, frames with
      | .array es, frames + 2 =>
        es.size < maxRounds && es.toList.all (writable h frames (r :: path))
      | .plain, frames + 1 => keysAreListed o && o.properties.values.all fun s => match s with
        | .value v => writable h frames (r :: path) v
        | .accessor _ _ => false
      | _, _ => false
  | _ + 1, _, _ => true

/-- The text that such a value has as JSON, if it has one. -/
def written (h : Heap) : Nat → Value → Option Text
  | 0, _ => none
  | _ + 1, .undefined => none
  | _ + 1, .null => some "null"
  | _ + 1, .bool b => some (if b then "true" else "false")
  | _ + 1, .number x => some (if x.isFinite then Number.text x else "null")
  | _ + 1, .text t => some (Text.quote t)
  | frames + 1, .object r =>
    let o := h.get r
    if o.isCallable then none
    else match o.content, frames with
      | .array es, frames + 2 =>
        some (wrapped "[" "]" [] [] (es.toList.map fun v => (written h frames v).getD "null"))
      | .plain, frames + 1 =>
        some (wrapped "\x7b" "\x7d" [] [] ((writtenKeys o).filterMap fun k =>
          match o.properties.get? k with
          | some (.value v) => (written h frames v).map fun t => Text.quote k ++ (":" : Text) ++ t
          | _ => none))
      | _, _ => none

/-- Whether the console can show a value without running any of the program. -/
def printable (h : Heap) (frames : Nat) : Value → Bool
  | .object r => !(h.get r).isCallable && writable h frames [] (.object r)
  | _ => true

/-- What the console shows of such a value. -/
def printed (h : Heap) (frames : Nat) : Value → Text
  | .object r => (written h frames (.object r)).getD "undefined"
  | v => (h.textOf frames v).toOption.getD []

/-! ### Reading and keys -/

section

variable {α β : Type} {c : Context} {w : World}

theorem bind_of_done {w' : World} {x : Action α} {a : α} (h : x c w = .done a w')
    (f : α → Action β) : (x >>= f) c w = f a c w' := by
  change (x c w).bind _ = _
  rw [h]
  rfl

theorem toText_text (t : Text) (c : Context) (w : World) : toText (.text t) c w = .done t w := by
  have ht : w.heap.textOf c.room (.text t) = .ok t := by rw [Heap.textOf]
  change ofExcept (w.heap.textOf c.room (.text t)) c w = _
  rw [ht]
  rfl

theorem thisArray_eq {r : Ref} (hr : (w.heap.get r).isArray = true) (method : String) :
    thisArray (.object r) method c w = .done r w := by
  change (if (w.heap.get r).isArray = true then pure r else _ : Action Ref) c w = _
  rw [if_pos hr]
  rfl

theorem collectRev_of_done {f : α → Action β} {g : α → β} {as : List α}
    (h : ∀ a ∈ as, f a c w = .done (g a) w) (acc : List β) :
    collectRev f as acc c w = .done ((as.map g).reverse ++ acc) w := by
  induction as generalizing acc with
  | nil => rfl
  | cons a as ih =>
    unfold collectRev
    rw [h a (by simp)]
    change collectRev f as (g a :: acc) c w = _
    rw [ih (fun b hb => h b (by simp [hb]))]
    simp

theorem collect_of_done {f : α → Action β} {g : α → β} {as : List α}
    (h : ∀ a ∈ as, f a c w = .done (g a) w) : collect f as c w = .done (as.map g) w := by
  unfold collect
  rw [bind_of_done (collectRev_of_done h [])]
  simp only [List.append_nil, List.reverse_reverse]
  rfl

/-- A loop that goes over the elements of an array and does the same with each. -/
theorem loop_of_done {body : Nat × List β → Action ((Nat × List β) ⊕ List β)} (es : Array α)
    (g : α → β) (hnext : ∀ i v acc, es[i]? = some v →
      body (i, acc) c w = .done (.inl (i + 1, g v :: acc)) w)
    (hend : ∀ i acc, es[i]? = none → body (i, acc) c w = .done (.inr acc.reverse) w)
    (rest : List α) (i : Nat) (hrest : es.toList.drop i = rest) (acc : List β) (fuel : Nat)
    (hfuel : rest.length < fuel) :
    loop body fuel (i, acc) c w = .done (acc.reverse ++ rest.map g) w := by
  induction rest generalizing i acc fuel with
  | nil =>
    obtain ⟨fuel, rfl⟩ := Nat.exists_eq_add_one.mpr hfuel
    have hi : es[i]? = none := by
      rw [← Array.getElem?_toList, List.getElem?_eq_none (List.drop_eq_nil_iff.mp hrest)]
    unfold loop
    rw [hend i acc hi]
    simp
  | cons v rest ih =>
    obtain ⟨fuel, rfl⟩ := Nat.exists_eq_add_one.mpr (Nat.zero_lt_of_lt hfuel)
    have hi : es[i]? = some v := by
      rw [← Array.getElem?_toList, ← List.head?_drop, hrest, List.head?_cons]
    have hdrop : es.toList.drop (i + 1) = rest := by
      rw [← List.tail_drop, hrest, List.tail_cons]
    unfold loop
    rw [hnext i v acc hi]
    change loop body fuel (i + 1, g v :: acc) c w = _
    rw [ih (i + 1) hdrop (g v :: acc) fuel (by simpa using hfuel)]
    simp

variable {r : Ref}

theorem getFrom_eq (k : Text) (v : Value) : getFrom r k v c w =
    slotValue (w.heap.lookup k r) v c w := rfl

theorem get_of_lookup {k : Text} {v : Value} (hr : (w.heap.get r).isRecord = true)
    (hv : w.heap.lookup k r = some (.value v)) : get (.object r) k c w = .done v w := by
  have hfrom : getFrom r k (.object r) c w = .done v w := by
    rw [getFrom_eq, hv]
    rfl
  change getOwnOrInherited r k c w = _
  unfold getOwnOrInherited
  rw [bind_of_done (rfl : object r c w = .done (w.heap.get r) w)]
  obtain hplain | ⟨time, hdate⟩ := Object.isRecord_iff.mp hr
  · rw [hplain]
    exact hfrom
  · rw [hdate]
    exact hfrom

theorem get_toJSON (hplain : (w.heap.get r).isCallable = false)
    (hnone : w.heap.lookup "toJSON" r = none) : get (.object r) "toJSON" c w = .done .undefined w := by
  have hfrom : getFrom r "toJSON" (.object r) c w = .done .undefined w := by
    rw [getFrom_eq, hnone]
    rfl
  change getOwnOrInherited r "toJSON" c w = _
  unfold getOwnOrInherited
  rw [bind_of_done (rfl : object r c w = .done (w.heap.get r) w)]
  cases hcontent : (w.heap.get r).content with
  | array es => exact hfrom
  | closure d => simp [Object.isCallable, hcontent] at hplain
  | native name n => simp [Object.isCallable, hcontent] at hplain
  | _ => exact hfrom

/-- An object without a method `toJSON` stands for itself. -/
theorem jsonForm_eq (hplain : (w.heap.get r).isCallable = false)
    (hnone : w.heap.lookup "toJSON" r = none) :
    jsonForm (.object r) c w = .done (.object r) w := by
  unfold jsonForm
  simp only
  rw [bind_of_done (rfl : object r c w = .done (w.heap.get r) w), hplain]
  change (get (.object r) "toJSON" >>= _) c w = _
  rw [bind_of_done (get_toJSON hplain hnone)]
  rfl

end

theorem mem_insertByIndex {i : Nat} {k : Text} {p : Nat × Text} {ks : List (Nat × Text)}
    (h : p ∈ insertByIndex i k ks) : p = (i, k) ∨ p ∈ ks := by
  induction ks with
  | nil => simpa [insertByIndex] using h
  | cons q ks ih =>
    obtain ⟨j, l⟩ := q
    unfold insertByIndex at h
    split at h
    · simpa using h
    · rcases List.mem_cons.mp h with rfl | h
      · simp
      · exact (ih h).imp_right fun h => List.mem_cons_of_mem _ h

theorem mem_foldl_insertByIndex {p : Nat × Text} {ps acc : List (Nat × Text)}
    (h : p ∈ ps.foldl (fun acc p => insertByIndex p.1 p.2 acc) acc) : p ∈ ps ∨ p ∈ acc := by
  induction ps generalizing acc with
  | nil => exact .inr h
  | cons q ps ih =>
    rcases ih h with h | h
    · exact .inl (List.mem_cons_of_mem _ h)
    · exact (mem_insertByIndex h).imp (fun h => by simp [h]) id

theorem exists_of_bind {ε α β : Type} {x : Except ε α} {f : α → Except ε β} {b : β}
    (h : x >>= f = .ok b) : ∃ a, x = .ok a ∧ f a = .ok b := by
  cases x with
  | error e => cases h
  | ok a => exact ⟨a, rfl, h⟩

/-- What each step of a sequence keeps, the whole keeps. -/
theorem map_of_mapM {ε α β γ : Type} {f : α → Except ε β} {g : β → γ} {k : α → γ}
    (hf : ∀ a b, f a = .ok b → g b = k a) {as : List α} {bs : List β} (h : as.mapM f = .ok bs) :
    bs.map g = as.map k := by
  induction as generalizing bs with
  | nil =>
    cases h
    rfl
  | cons a as ih =>
    rw [List.mapM_cons] at h
    obtain ⟨b, hb, h⟩ := exists_of_bind h
    obtain ⟨cs, hcs, h⟩ := exists_of_bind h
    cases h
    rw [List.map_cons, List.map_cons, hf a b hb, ih hcs]

theorem mem_of_mem_orderedKeys {ks ls : List Text} (h : orderedKeys ks = .ok ls) {k : Text}
    (hk : k ∈ ls) : k ∈ ks := by
  unfold orderedKeys at h
  obtain ⟨ps, hps, h⟩ := exists_of_bind h
  have hkeys : ps.map Prod.snd = ks.filter isIndexKey := by
    rw [map_of_mapM (k := id) (fun k p hp => ?_) hps, List.map_id]
    obtain ⟨n, -, hp⟩ := exists_of_bind hp
    cases hp
    rfl
  cases h
  rcases List.mem_append.mp hk with hk | hk
  · obtain ⟨p, hp, rfl⟩ := List.mem_map.mp hk
    have hmem : p ∈ ps := by simpa using mem_foldl_insertByIndex hp
    have hkey : p.2 ∈ ks.filter isIndexKey := hkeys ▸ List.mem_map_of_mem hmem
    exact (List.mem_filter.mp hkey).1
  · exact (List.mem_filter.mp hk).1

theorem exists_get?_of_mem_keys {α : Type} {d : OrderedMap Text α} {k : Text} (h : k ∈ d.keys) :
    ∃ a, d.get? k = some a ∧ a ∈ d.values := by
  induction d with
  | nil => cases h
  | cons p d ih =>
    obtain ⟨l, a⟩ := p
    unfold OrderedMap.get?
    split
    · exact ⟨a, rfl, by simp [OrderedMap.values]⟩
    · next hne =>
      have hmem : k ∈ OrderedMap.keys d := by simpa [OrderedMap.keys, hne] using h
      obtain ⟨b, hb, hvalue⟩ := ih hmem
      exact ⟨b, hb, List.mem_cons_of_mem _ hvalue⟩

/-- A plain object whose properties can be written. -/
structure PlainAt (h : Heap) (r : Ref) (P : Value → Prop) : Prop where
  content : (h.get r).content = .plain
  listed : ∃ ks, orderedKeys (h.get r).properties.keys = .ok ks
  properties : ∀ s ∈ (h.get r).properties.values, ∃ v, s = .value v ∧ P v

namespace PlainAt

variable {h : Heap} {r : Ref} {P : Value → Prop}

theorem writtenKeys_eq (hr : PlainAt h r P) :
    orderedKeys (h.get r).properties.keys = .ok (writtenKeys (h.get r)) := by
  obtain ⟨ks, hks⟩ := hr.listed
  simp [writtenKeys, hks, Except.toOption]

theorem property (hr : PlainAt h r P) {k : Text} (hk : k ∈ writtenKeys (h.get r)) :
    ∃ v, (h.get r).properties.get? k = some (.value v) ∧ P v := by
  obtain ⟨s, hget, hs⟩ := exists_get?_of_mem_keys (mem_of_mem_orderedKeys hr.writtenKeys_eq hk)
  obtain ⟨v, rfl, hv⟩ := hr.properties s hs
  exact ⟨v, hget, hv⟩

theorem enumerableKeys_eq {c : Context} {w : World} (hr : PlainAt w.heap r P) :
    enumerableKeys (.object r) c w = .done (writtenKeys (w.heap.get r)) w := by
  have hown : (w.heap.get r).ownKeys = .ok (writtenKeys (w.heap.get r)) := by
    unfold Object.ownKeys
    rw [hr.writtenKeys_eq, hr.content]
    rfl
  unfold enumerableKeys
  simp only
  rw [bind_of_done (rfl : object r c w = .done (w.heap.get r) w), hown]
  refine congrArg (Course.done · w) (List.filter_eq_self.mpr fun k hk => ?_)
  obtain ⟨v, hget, -⟩ := hr.property hk
  simp only [hget]

end PlainAt

theorem lookup_of_get? {h : Heap} {r : Ref} {k : Text} {s : Slot}
    (hs : (h.get r).properties.get? k = some s) : h.lookup k r = some s := by
  simp only [Heap.lookup, Heap.walk, Heap.climb, Heap.askSlot, hs, Option.map_some]

/-! ### Writing -/

/-- What is raised for an object that is open already. -/
def circularity : Interrupt := .raised .typeError "Converting circular structure to JSON"

/-- What is written of what is in an object that is open. -/
def writeInside (unit_ : Text) (frames : Nat) (indent : Text) (stack : List Ref) (r : Ref)
    (o : Object) : Action (Option Text) := do
  if o.isArray then return some (← writeArray unit_ frames indent stack r)
  else return some (← writeRecord unit_ frames indent stack r)

section

variable {c : Context} {w : World} {frames : Nat} {path : List Ref} {r : Ref} {indent unit_ : Text}

/-- A function has no text. -/
theorem writeValue_function (hr : (w.heap.get r).isCallable = true) :
    writeValue unit_ (frames + 1) indent path (.object r) c w = .done none w := by
  have hform : jsonForm (.object r) c w = .done (.object r) w := by
    unfold jsonForm
    simp only
    rw [bind_of_done (rfl : object r c w = .done (w.heap.get r) w), hr]
    rfl
  rw [writeValue, bind_of_done hform]
  simp only
  rw [bind_of_done (rfl : object r c w = .done (w.heap.get r) w), if_pos hr]
  rfl

/-- An object that stands for itself is opened, unless it is open. -/
theorem writeValue_object (hr : (w.heap.get r).isCallable = false)
    (hnone : w.heap.lookup "toJSON" r = none) :
    writeValue unit_ (frames + 1) indent path (.object r) c w =
      if r ∈ path then .broke circularity w
      else writeInside unit_ frames indent (r :: path) r (w.heap.get r) c w := by
  rw [writeValue, bind_of_done (jsonForm_eq hr hnone)]
  simp only
  rw [bind_of_done (rfl : object r c w = .done (w.heap.get r) w)]
  by_cases hpath : r ∈ path
  · rw [if_pos hpath]
    simp only [hr, hpath, List.contains_iff_mem]
    rfl
  · rw [if_neg hpath]
    simp only [hr, hpath, List.contains_iff_mem]
    rfl

end

section

variable {c : Context} {w : World} {frames : Nat} {path : List Ref} {r : Ref}

/-- With so many frames, what is in the objects of a path is written as it should be. -/
def WritesPlain (frames : Nat) (path : List Ref) (c : Context) (w : World) : Prop :=
  ∀ v, writable w.heap frames path v = true →
    writeValue [] frames [] path v c w = .done (written w.heap frames v) w

theorem writeArray_eq (hm : WritesPlain frames path c w) {es : Array Value}
    (hcontent : (w.heap.get r).content = .array es) (hsize : es.size < maxRounds)
    (hall : ∀ v ∈ es.toList, writable w.heap frames path v = true) :
    writeArray [] (frames + 2) [] path r c w = .done (wrapped "[" "]" [] []
      (es.toList.map fun v => (written w.heap frames v).getD "null")) w := by
  have helements : (w.heap.get r).elements = es := by simp [Object.elements, hcontent]
  rw [writeArray]
  unfold writeElements
  refine (bind_of_done (loop_of_done es
    (fun v => (written w.heap frames v).getD "null") (fun i v acc hi => ?_)
    (fun i acc hi => ?_) es.toList 0 rfl [] maxRounds (by simpa using hsize)) _).trans rfl
  · rw [bind_of_done (rfl : object r c w = .done (w.heap.get r) w), helements]
    simp only [hi]
    have hv : v ∈ es.toList := by
      simpa using Array.mem_of_getElem? hi
    exact bind_of_done (hm v (hall v hv)) _
  · rw [bind_of_done (rfl : object r c w = .done (w.heap.get r) w), helements]
    simp only [hi]
    rfl

/-- The text of one property. -/
def writtenField (h : Heap) (frames : Nat) (o : Object) (k : Text) : Option Text :=
  match o.properties.get? k with
  | some (.value v) => (written h frames v).map fun t => Text.quote k ++ (":" : Text) ++ t
  | _ => none

theorem fieldKeys_eq {P : Value → Prop} (hr : PlainAt w.heap r P) :
    fieldKeys r c w = .done (writtenKeys (w.heap.get r)) w := by
  unfold fieldKeys
  rw [bind_of_done (rfl : object r c w = .done (w.heap.get r) w), hr.content]
  exact hr.enumerableKeys_eq

theorem writeRecord_eq (hm : WritesPlain frames path c w)
    (hr : PlainAt w.heap r fun v => writable w.heap frames path v = true) :
    writeRecord [] (frames + 1) [] path r c w = .done (wrapped "\x7b" "\x7d" [] []
      ((writtenKeys (w.heap.get r)).filterMap (writtenField w.heap frames (w.heap.get r)))) w := by
  rw [writeRecord]
  unfold writeFields
  rw [bind_of_done (fieldKeys_eq hr)]
  refine (bind_of_done (collect_of_done (g := writtenField w.heap frames (w.heap.get r))
    fun k hk => ?_) _).trans ?_
  · obtain ⟨v, hget, hv⟩ := hr.property hk
    have hrecord : (w.heap.get r).isRecord = true := Object.isRecord_iff.mpr (.inl hr.content)
    rw [bind_of_done (get_of_lookup hrecord (lookup_of_get? hget))]
    refine (bind_of_done (hm v hv) _).trans ?_
    simp only [writtenField, hget]
    rfl
  · rw [List.filterMap_map]
    rfl

end

/-- What it takes that an object can be written. -/
theorem writable_object (h : Heap) (frames : Nat) (path : List Ref) (r : Ref)
    (hwritable : writable h (frames + 1) path (.object r) = true) :
    (h.get r).isCallable = true ∨ (h.get r).isCallable = false ∧ r ∉ path ∧
      h.lookup "toJSON" r = none ∧
      ((∃ es k, frames = k + 2 ∧ (h.get r).content = .array es ∧ es.size < maxRounds ∧
        ∀ v ∈ es.toList, writable h k (r :: path) v = true) ∨
      ∃ k, frames = k + 1 ∧ PlainAt h r fun v => writable h k (r :: path) v = true) := by
  unfold writable at hwritable
  cases hcallable : (h.get r).isCallable with
  | true => exact .inl rfl
  | false =>
    refine .inr ⟨rfl, ?_⟩
    simp only [hcallable, Bool.false_or, Bool.and_eq_true, Bool.not_eq_true',
      Option.isNone_iff_eq_none] at hwritable
    obtain ⟨⟨hpath, hnone⟩, hcontent⟩ := hwritable
    refine ⟨by simpa using hpath, hnone, ?_⟩
    split at hcontent
    · next es k hes =>
      simp only [Bool.and_eq_true, decide_eq_true_eq, List.all_eq_true] at hcontent
      exact .inl ⟨es, k, rfl, hes, hcontent⟩
    · next k hplain =>
      simp only [Bool.and_eq_true, List.all_eq_true] at hcontent
      obtain ⟨hlisted, hproperties⟩ := hcontent
      refine .inr ⟨k, rfl, hplain, ?_, fun s hs => ?_⟩
      · unfold keysAreListed at hlisted
        cases hks : orderedKeys (h.get r).properties.keys with
        | ok ks => exact ⟨ks, rfl⟩
        | error x => simp [hks, Except.toOption] at hlisted
      · have hs := hproperties s hs
        cases s with
        | value v => exact ⟨v, rfl, hs⟩
        | accessor getter setter => cases hs
    · cases hcontent

/-- Plain data is written as its text, by induction on the frames. -/
theorem writeValue_eq (frames : Nat) (path : List Ref) (c : Context) (w : World) :
    WritesPlain frames path c w := by
  induction frames using Nat.strongRecOn generalizing path with
  | ind frames ih =>
    intro v hv
    cases frames with
    | zero => cases v <;> cases hv
    | succ frames =>
    cases v with
    | object r =>
      obtain hcallable | ⟨hplain, hpath, hnone, hcontent⟩ := writable_object _ _ _ _ hv
      · unfold written
        rw [writeValue_function hcallable, if_pos hcallable]
      · unfold written
        rw [writeValue_object hplain hnone, if_neg hpath]
        simp only [hplain, Bool.false_eq_true, ↓reduceIte]
        rcases hcontent with ⟨es, k, rfl, hes, hsize, hall⟩ | ⟨k, rfl, hr⟩
        · have harray : (w.heap.get r).isArray = true := by simp [Object.isArray, hes]
          simp only [hes, writeInside, harray, ↓reduceIte]
          exact bind_of_done (writeArray_eq (ih k (by omega) _) hes hsize hall) _
        · have harray : (w.heap.get r).isArray = false := by simp [Object.isArray, hr.content]
          simp only [hr.content, writeInside, harray, Bool.false_eq_true, ↓reduceIte]
          exact bind_of_done (writeRecord_eq (ih k (by omega) _) hr) _
    | _ => rfl

theorem plainText_eq {c : Context} {w : World} {v : Value} (hv : v.isPrimitive = true) :
    plainText v c w = .done ((w.heap.textOf c.room v).toOption.getD []) w := by
  have htext : ∃ t, w.heap.textOf c.room v = .ok t := by
    cases v with
    | object r => cases hv
    | _ => exact ⟨_, by rw [Heap.textOf]⟩
  obtain ⟨t, ht⟩ := htext
  change ofExcept (w.heap.textOf c.room v) c w = _
  rw [ht]
  rfl

theorem consoleText_eq {c : Context} (v : Value) (w : World)
    (hv : printable w.heap c.room v = true) :
    consoleText v c w = .done (printed w.heap c.room v) w := by
  cases v with
  | object r =>
    simp only [printable, Bool.and_eq_true, Bool.not_eq_true'] at hv
    obtain ⟨hplain, hwritable⟩ := hv
    unfold consoleText
    simp only
    rw [bind_of_done (rfl : object r c w = .done (w.heap.get r) w), hplain]
    exact bind_of_done (writeValue_eq c.room [] c w _ hwritable) _
  | _ => exact plainText_eq rfl

end Stepper.Builtin
