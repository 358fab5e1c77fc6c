import Stepper.Proofs.Collecting
import Stepper.Proofs.Numerals

/-!
The elements of an array are a sequence: it has a length, and something at every index, undefined
from its length on. Assignments to indices and to the length and deletions change the sequence as
they should and nothing else of the array, whether an index is a number or its digits.
-/
namespace Stepper.Machine

open Number

theorem isDigit_of_mem_indexKey {i c : Nat} (h : c ∈ indexKey i) : IsDigit c := by
  obtain ⟨d, hd, rfl⟩ := List.mem_map.1 h
  have hlt := lt_of_mem_digitsIn hd
  rw [digitChar, if_pos hlt, IsDigit]
  omega

theorem keyFits_indexKey {i : Nat} (h : (indexKey i).length ≤ maxDigits) : KeyFits (indexKey i) :=
  ⟨fun _ hc _ => isDigit_of_mem_indexKey hc, h⟩

theorem keyIndex_indexKey (i : Nat) : keyIndex (indexKey i) = i := by
  have hdigits : (digitsIn 10 i).map (fun d => digitChar d - 0x30) = digitsIn 10 i := by
    refine (List.map_congr_left fun d hd => ?_).trans (List.map_id _)
    rw [digitChar, if_pos (lt_of_mem_digitsIn hd)]
    exact Nat.add_sub_cancel_left ..
  rw [keyIndex, indexKey, natText, List.map_map]
  exact (congrArg (ofDigits 10) hdigits).trans (ofDigits_digitsIn 10 i)

theorem hasDigitValue_of_isDigit {c : Nat} (h : IsDigit c) : Text.hasDigitValue c = true := by
  obtain ⟨hlo, hhi⟩ := h
  have hlt : c < 0x80 := by omega
  simp [Text.hasDigitValue, Text.isDecimal, Text.decimalValue?, hlt, hlo, hhi]

theorem isIndexKey_indexKey (i : Nat) : isIndexKey (indexKey i) = true := by
  have hnil : (indexKey i).isEmpty = false := by
    simp [indexKey, natText, digitsIn_ne_nil]
  have hall : (indexKey i).all Text.hasDigitValue = true :=
    List.all_eq_true.2 fun c hc => hasDigitValue_of_isDigit (isDigit_of_mem_indexKey hc)
  have hhead : (indexKey i == [0x30] || (indexKey i).head? != some 0x30) = true := by
    by_cases hi : 0 < i
    · have hfirst := head?_digitsIn hi
      rw [indexKey, natText, List.head?_map]
      cases hd : (digitsIn 10 i).head? with
      | none => simp
      | some d =>
        have hlt := lt_of_mem_digitsIn (List.mem_of_mem_head? hd)
        have hne : d ≠ 0 := fun h => hfirst (h ▸ hd)
        simp only [Option.map_some, digitChar, hlt, if_true, Bool.or_eq_true, bne_iff_ne, ne_eq,
          Option.some.injEq]
        omega
    · obtain rfl : i = 0 := by omega
      rw [indexKey, natText, digitsIn_of_lt (by omega)]
      rfl
  rw [isIndexKey, hnil, hall, hhead]
  rfl

theorem KeyFits.arrayIndex?_eq {k : Text} (hk : KeyFits k) :
    arrayIndex? k = .ok (if isIndexKey k = true then some (keyIndex k) else none) := by
  unfold arrayIndex?
  split
  · rename_i hindex
    rw [hk.readInteger_eq hindex]
    rfl
  · rfl

theorem arrayIndex?_indexKey {i : Nat} (h : (indexKey i).length ≤ maxDigits) :
    arrayIndex? (indexKey i) = .ok (some i) := by
  rw [(keyFits_indexKey h).arrayIndex?_eq, if_pos (isIndexKey_indexKey i), keyIndex_indexKey]

/-- An index of too many digits cannot be read. -/
theorem arrayIndex?_of_long {i : Nat} (h : maxDigits < (indexKey i).length) :
    arrayIndex? (indexKey i) = .error (.integerTooLong (indexKey i).length) := by
  have hnil : indexKey i ≠ [] := by simp [indexKey, natText, digitsIn_ne_nil]
  rw [arrayIndex?, if_pos (isIndexKey_indexKey i),
    readInteger_eq hnil fun _ hc => isDigit_of_mem_indexKey hc, if_pos h]
  rfl

/-- A number has the same key as its digits. -/
theorem toKey_ofNat {i : Nat} (hi : i < Nat.pow 2 53) (c : Context) (w : World) :
    Action.toKey (.number (Binary64.ofNat i)) c w = Action.toKey (.text (indexKey i)) c w :=
  congrArg (fun k => Course.done k w) (text_ofNat hi)

/-- The integer part of a natural number is the number. -/
theorem Heap.integerOf_ofNat (h : Heap) (depth : Nat) {n : Nat} (hn : n < Nat.pow 2 53) :
    h.integerOf depth (.number (Binary64.ofNat n)) = .ok (n : Int) := by
  change Except.ok (if (Binary64.ofNat n).isNaN = true then 0
    else (Binary64.truncate? (Binary64.ofNat n)).getD _) = _
  rw [isNaN_ofNat hn, truncate?_ofNat hn]
  rfl

/-- What an array holds: a length, and something at every index. -/
structure Elements where
  length : Nat
  item : Nat → Value

def Elements.of (es : Array Value) : Elements := ⟨es.size, fun i => es.getD i .undefined⟩

/-- A change of an array. -/
inductive Change where
  | put (i : Nat) (v : Value)
  | resize (n : Nat)
  | clear (i : Nat)

namespace Change

/-- The elements that a change leaves. -/
def on : Change → Elements → Elements
  | .put i v, s => ⟨max s.length (i + 1), fun j => if j = i then v else s.item j⟩
  | .resize n, s => ⟨n, fun j => if j < n then s.item j else .undefined⟩
  | .clear i, s => ⟨s.length, fun j => if j = i then .undefined else s.item j⟩

/-- The elements of an array that a change leaves. -/
def onArray : Change → Array Value → Array Value
  | .put i v, es => Action.withElement es i v
  | .resize n, es => Action.resized es n
  | .clear i, es => es.setIfInBounds i .undefined

/-- How a program makes the change. -/
def act (r : Ref) : Change → Action Unit
  | .put i v => Action.set (.object r) (indexKey i) v
  | .resize n => Action.set (.object r) (Text.ofString "length") (.number (Binary64.ofNat n))
  | .clear i => Action.delete (.object r) (indexKey i)

/-- The array does not become too long, and the index can be read. -/
def Fits : Change → Prop
  | .put i _ => i ≤ Action.maxLength
  | .resize n => n ≤ Action.maxLength
  | .clear i => (indexKey i).length ≤ maxDigits

end Change

/-! The arrays hold what the changes leave. -/

section

variable (es : Array Value)

theorem size_withElement (i : Nat) (v : Value) :
    (Action.withElement es i v).size = max es.size (i + 1) := by
  unfold Action.withElement
  split
  · rw [Array.size_setIfInBounds]
    omega
  · rw [Array.size_push, Array.size_append, Array.size_replicate]
    omega

theorem getD_withElement (i j : Nat) (v : Value) :
    (Action.withElement es i v).getD j .undefined = if j = i then v else es.getD j .undefined := by
  simp only [Array.getD_eq_getD_getElem?]
  unfold Action.withElement
  split
  · rename_i hi
    rw [Array.getElem?_setIfInBounds]
    by_cases hj : j = i
    · simp [hj, hi]
    · simp [hj, Ne.symm hj]
  · rename_i hi
    have hsize : (es ++ Array.replicate (i - es.size) Value.undefined).size = i := by
      rw [Array.size_append, Array.size_replicate]
      omega
    rw [Array.getElem?_push, hsize, Array.getElem?_append, Array.getElem?_replicate]
    by_cases hj : j = i
    · simp [hj]
    · rw [if_neg hj, if_neg hj]
      split
      · rfl
      · rename_i hlt
        rw [Array.getElem?_eq_none (Nat.not_lt.1 hlt)]
        split <;> rfl

theorem size_resized (n : Nat) : (Action.resized es n).size = n := by
  unfold Action.resized
  split
  · rw [Array.size_extract]
    omega
  · rw [Array.size_append, Array.size_replicate]
    omega

theorem getD_resized (n j : Nat) : (Action.resized es n).getD j .undefined =
    if j < n then es.getD j .undefined else .undefined := by
  simp only [Array.getD_eq_getD_getElem?]
  unfold Action.resized
  split
  · rename_i hn
    rw [Array.getElem?_extract, Nat.zero_add]
    by_cases hj : j < n
    · rw [if_pos (by omega), if_pos hj]
    · rw [if_neg (by omega), if_neg hj]
      rfl
  · rename_i hn
    rw [Array.getElem?_append, Array.getElem?_replicate]
    by_cases hlt : j < es.size
    · rw [if_pos hlt, if_pos (by omega)]
    · rw [if_neg hlt, Array.getElem?_eq_none (Nat.not_lt.1 hlt)]
      split <;> split <;> rfl

theorem getD_setIfInBounds (i j : Nat) : (es.setIfInBounds i .undefined).getD j .undefined =
    if j = i then .undefined else es.getD j .undefined := by
  simp only [Array.getD_eq_getD_getElem?, Array.getElem?_setIfInBounds]
  by_cases hj : j = i
  · rw [if_pos hj, if_pos hj.symm]
    split <;> rfl
  · rw [if_neg hj, if_neg (Ne.symm hj)]

theorem Elements.of_onArray (change : Change) :
    Elements.of (change.onArray es) = change.on (Elements.of es) := by
  cases change with
  | put i v =>
    exact congr (congrArg Elements.mk (size_withElement es i v))
      (funext fun j => getD_withElement es i j v)
  | resize n =>
    exact congr (congrArg Elements.mk (size_resized es n)) (funext fun j => getD_resized es n j)
  | clear i =>
    exact congr (congrArg Elements.mk Array.size_setIfInBounds)
      (funext fun j => getD_setIfInBounds es i j)

end

section

variable {w : World} {r : Ref} {es : Array Value} {c : Context}

/-- An array that is not frozen, with its elements. -/
structure World.HasElements (w : World) (r : Ref) (es : Array Value) : Prop where
  content : (w.heap.get r).content = .array es
  frozen : (w.heap.get r).frozen = false

theorem World.HasElements.lt (h : w.HasElements r es) : r.index < w.heap.objects.size :=
  World.lt_of_content h.content fun h => Content.noConfusion h

theorem World.HasElements.holding (h : w.HasElements r es) (fs : Array Value) :
    (w.holding r (.array fs)).HasElements r fs := by
  constructor
  · exact World.content_holding h.lt _
  · rw [World.holding, Heap.get_modify_self _ _ h.lt]
    exact h.frozen

theorem World.HasElements.setElements (h : w.HasElements r es) (f : Array Value → Array Value) :
    Action.setElements r f c w = .done () (w.holding r (.array (f es))) := by
  refine congrArg (fun heap => Course.done () { w with heap }) (Heap.modify_congr ?_)
  have hcontent := h.content
  cases hget : w.heap.get r with
  | mk proto isError frozen properties content =>
    rw [hget] at hcontent
    cases hcontent
    rfl

theorem World.HasElements.isArray (h : w.HasElements r es) : (w.heap.get r).isArray = true := by
  rw [Object.isArray, h.content]

/-- A word is not an index. -/
theorem beq_length_of_index {k : Text} (hindex : isIndexKey k = true) :
    (k == Text.ofString "length") = false := by
  rw [beq_eq_false_iff_ne]
  rintro rfl
  exact absurd hindex (by decide)

theorem checkLength_of_le {n : Nat} (hn : n ≤ Action.maxLength) :
    Action.checkLength n c w = .done () w := by
  rw [Action.checkLength, if_neg (Nat.not_lt.2 hn)]
  rfl

theorem World.HasElements.set_index (h : w.HasElements r es) {k : Text} (hk : KeyFits k)
    (hindex : isIndexKey k = true) (hlength : keyIndex k ≤ Action.maxLength) (v : Value) :
    Action.set (.object r) k v c w =
      .done () (w.holding r (.array (Action.withElement es (keyIndex k) v))) := by
  have hne : (k == Text.ofString "length") = false := beq_length_of_index hindex
  change (if (w.heap.get r).frozen = true then (pure () : Action Unit) else
    if (!(w.heap.get r).isArray) = true then _ else
    if (k == Text.ofString "length") = true then _ else _) c w = _
  rw [h.frozen, h.isArray, hne, hk.arrayIndex?_eq, if_pos hindex]
  change (Action.checkLength (keyIndex k) c w).bind _ = _
  rw [checkLength_of_le hlength]
  exact h.setElements _

theorem World.HasElements.set_length (h : w.HasElements r es) {v : Value} {n : Int}
    (hv : w.heap.integerOf c.room v = .ok n) (hlength : n.toNat ≤ Action.maxLength) :
    Action.set (.object r) (Text.ofString "length") v c w =
      .done () (w.holding r (.array (Action.resized es n.toNat))) := by
  have hinteger : Action.plainInteger v c w = .done n w := by
    change Action.ofExcept (w.heap.integerOf c.room v) c w = _
    rw [hv]
    rfl
  change (if (w.heap.get r).frozen = true then (pure () : Action Unit) else
    if (!(w.heap.get r).isArray) = true then _ else _) c w = _
  rw [h.frozen, h.isArray]
  change (Action.plainInteger v c w).bind _ = _
  rw [hinteger]
  change (Action.checkLength n.toNat c w).bind _ = _
  rw [checkLength_of_le hlength]
  exact h.setElements _

theorem World.HasElements.delete_index (h : w.HasElements r es) {k : Text} (hk : KeyFits k)
    (hindex : isIndexKey k = true) : Action.delete (.object r) k c w =
      .done () (w.holding r (.array (es.setIfInBounds (keyIndex k) .undefined))) := by
  change (if (w.heap.get r).frozen = true then (pure () : Action Unit) else
    (if (w.heap.get r).isArray = true then Action.ofExcept (arrayIndex? k) else pure none) >>= _)
      c w = _
  rw [h.frozen, h.isArray, hk.arrayIndex?_eq, if_pos hindex]
  exact h.setElements (c := c) fun es => es.setIfInBounds (keyIndex k) .undefined

/-- An action that looks at the array sees its elements. -/
theorem World.HasElements.object_bind {α : Type} (h : w.HasElements r es)
    (f : Object → Action α) : (Action.object r >>= f) c w =
      f { w.heap.get r with content := .array es } c w := by
  rw [← h.content]
  rfl

theorem World.HasElements.get_index (h : w.HasElements r es) {k : Text} (hk : KeyFits k)
    (hindex : isIndexKey k = true) :
    Action.get (.object r) k c w = .done (es.getD (keyIndex k) .undefined) w := by
  have hne : (k == Text.ofString "length") = false := beq_length_of_index hindex
  have hread : arrayIndex? k = .ok (some (keyIndex k)) := by
    rw [hk.arrayIndex?_eq, if_pos hindex]
  refine (h.object_bind _).trans ?_
  simp only [hne, hread]
  rfl

theorem World.HasElements.get_length (h : w.HasElements r es) :
    Action.get (.object r) (Text.ofString "length") c w =
      .done (.number (Binary64.ofNat es.size)) w :=
  (h.object_bind _).trans rfl

theorem World.HasElements.hasOwn_index (h : w.HasElements r es) {k : Text} (hk : KeyFits k)
    (hindex : isIndexKey k = true) :
    (w.heap.get r).hasOwn k = .ok (decide (keyIndex k < es.size)) := by
  rw [Object.hasOwn, h.content, hk.arrayIndex?_eq, if_pos hindex]
  rfl

theorem World.HasElements.hasOwn_length (h : w.HasElements r es) :
    (w.heap.get r).hasOwn (Text.ofString "length") = .ok true := by
  rw [Object.hasOwn, h.content]
  rfl

/-- A short index can be read. -/
theorem length_indexKey_le {i : Nat} (hi : i ≤ Action.maxLength) :
    (indexKey i).length ≤ maxDigits := by
  refine Nat.le_trans (length_natText_le (k := 7) ?_) (by decide)
  simp only [Action.maxLength, Nat.pow_eq] at hi ⊢
  omega

theorem World.HasElements.act (h : w.HasElements r es) {change : Change} (hfits : change.Fits) :
    change.act r c w = .done () (w.holding r (.array (change.onArray es))) := by
  cases change with
  | put i v =>
    have hset := h.set_index (c := c) (keyFits_indexKey (length_indexKey_le hfits))
      (isIndexKey_indexKey i) (by rwa [keyIndex_indexKey]) v
    rwa [keyIndex_indexKey] at hset
  | resize n =>
    have hn : n < Nat.pow 2 53 := Nat.lt_of_le_of_lt hfits (by decide)
    exact h.set_length (w.heap.integerOf_ofNat c.room hn) (by rwa [Int.toNat_natCast])
  | clear i =>
    have hdelete := h.delete_index (c := c) (keyFits_indexKey hfits) (isIndexKey_indexKey i)
    rwa [keyIndex_indexKey] at hdelete

/-- The elements that changes leave one after the other. -/
def Elements.after (changes : List Change) (s : Elements) : Elements :=
  changes.foldl (fun s change => change.on s) s

theorem Heap.modify_modify (h : Heap) (r : Ref) (f g : Object → Object) :
    (h.modify r f).modify r g = h.modify r fun o => g (f o) := by
  obtain ⟨objects⟩ := h
  have hsize : ((objects.modify r.index f).modify r.index g).size =
      (objects.modify r.index fun o => g (f o)).size := by
    simp only [Array.size_modify]
  refine congrArg Heap.mk (Array.ext hsize fun i _ _ => ?_)
  simp only [modify, Array.getElem_modify]
  split <;> rfl

theorem World.holding_holding (w : World) (r : Ref) (content content' : Content) :
    (w.holding r content).holding r content' = w.holding r content' :=
  congrArg (fun heap => { w with heap }) (w.heap.modify_modify r _ _)

/-- Any changes in sequence leave an array that holds what they leave together, and everything else
as it was. -/
theorem World.HasElements.acts (h : w.HasElements r es) {changes : List Change}
    (hfits : ∀ change ∈ changes, change.Fits) : ∃ fs,
    Action.each (Change.act r) changes c w = .done () (w.holding r (.array fs)) ∧
      Elements.of fs = (Elements.of es).after changes := by
  induction changes generalizing w es with
  | nil => exact ⟨es, congrArg (Course.done ()) (World.holding_self h.content).symm, rfl⟩
  | cons change changes ih =>
    obtain ⟨hchange, hrest⟩ := List.forall_mem_cons.1 hfits
    obtain ⟨fs, hacts, hfs⟩ := ih (h.holding (change.onArray es)) hrest
    refine ⟨fs, ?_, ?_⟩
    · rw [Action.each_cons]
      change (change.act r c w).bind _ = _
      rw [h.act hchange]
      exact hacts.trans (congrArg (Course.done ()) (World.holding_holding ..))
    · rw [hfs, Elements.of_onArray]
      rfl

/-- To look for an index of too many digits ends the run. -/
theorem World.HasElements.hasOwn_long (h : w.HasElements r es) {i : Nat}
    (hi : maxDigits < (indexKey i).length) :
    (w.heap.get r).hasOwn (indexKey i) = .error (.integerTooLong (indexKey i).length) := by
  rw [Object.hasOwn, h.content, arrayIndex?_of_long hi]
  rfl

/-- After any changes in sequence of an array that is not frozen, its length and what is read at an
index are what the changes leave, the index is an own key exactly below the length, and numbers and
their digits are the same index; nothing of the array has changed but its elements. -/
theorem arrays_are_sequences (c : Context) (h : w.HasElements r es) {changes : List Change}
    (hfits : ∀ change ∈ changes, change.Fits) : ∃ v,
    Action.each (Change.act r) changes c w = .done () v ∧
    (∃ fs, v = w.holding r (.array fs)) ∧
    (v.heap.get r).properties = (w.heap.get r).properties ∧
    Action.get (.object r) (Text.ofString "length") c v =
      .done (.number (Binary64.ofNat ((Elements.of es).after changes).length)) v ∧
    (v.heap.get r).hasOwn (Text.ofString "length") = .ok true ∧
    (∀ i, (indexKey i).length ≤ maxDigits →
      Action.get (.object r) (indexKey i) c v =
        .done (((Elements.of es).after changes).item i) v ∧
      (v.heap.get r).hasOwn (indexKey i) =
        .ok (decide (i < ((Elements.of es).after changes).length))) ∧
    ∀ i, i < Nat.pow 2 53 →
      Action.toKey (.number (Binary64.ofNat i)) c v = Action.toKey (.text (indexKey i)) c v := by
  obtain ⟨fs, hacts, hfs⟩ := h.acts (c := c) hfits
  have hafter := h.holding fs
  have hlength : ((Elements.of es).after changes).length = fs.size := by rw [← hfs]; rfl
  refine ⟨_, hacts, ⟨fs, rfl⟩, ?_, ?_, hafter.hasOwn_length, fun i hi => ⟨?_, ?_⟩,
    fun i hi => toKey_ofNat hi c _⟩
  · rw [World.holding, Heap.get_modify_self _ _ h.lt]
  · rw [hlength]
    exact hafter.get_length
  · have hget := hafter.get_index (c := c) (keyFits_indexKey hi) (isIndexKey_indexKey i)
    rw [← hfs]
    rwa [keyIndex_indexKey] at hget
  · have hown := hafter.hasOwn_index (keyFits_indexKey hi) (isIndexKey_indexKey i)
    rw [hlength]
    rwa [keyIndex_indexKey] at hown

end

end Stepper.Machine
