import Mathlib.Data.List.Infix
import Mathlib.Data.List.Nodup
import Stepper.Proofs.Elements

/-!
The keys of an object, one by one. What an object lists as its keys is what it says it has: every
key once, an array's length left out; first the elements of an array, then the keys that are indices
in ascending order, then the others in the order in which they came. So it is as long as each key
can be read where it is an index, and no property of an array is named like an element or the
length. Loops and copies see the same keys without accessors.
-/
namespace Stepper.Number

/-- Digits without a leading zero are the digits of the number that they write. -/
theorem digitsIn_ofDigits {ds : List Nat} (hnil : ds ≠ []) (hlt : ∀ d ∈ ds, d < 10)
    (hhead : ds = [0] ∨ ds.head? ≠ some 0) : digitsIn 10 (ofDigits 10 ds) = ds := by
  induction ds using List.reverseRecOn with
  | nil => exact absurd rfl hnil
  | append_singleton ds d ih =>
    have hd : d < 10 := hlt d (by simp)
    rw [ofDigits_append_singleton]
    by_cases hds : ds = []
    · subst hds
      simpa [ofDigits] using digitsIn_of_lt hd
    · have hfirst : ds.head? ≠ some 0 := by
        rcases hhead with hzero | hhead
        · exact absurd (List.append_eq_singleton_iff.mp hzero) (by simp [hds])
        · rwa [List.head?_append_of_ne_nil _ hds] at hhead
      have hdigits := ih hds (fun e he => hlt e (List.mem_append_left _ he)) (.inr hfirst)
      have hpos : 0 < ofDigits 10 ds := by
        refine Nat.pos_of_ne_zero fun hzero => ?_
        rw [hzero, digitsIn_of_lt (by omega)] at hdigits
        exact hfirst (by rw [← hdigits]; rfl)
      rw [digitsIn_of_le (by omega)]
      have hdiv : (ofDigits 10 ds * 10 + d) / 10 = ofDigits 10 ds := by omega
      have hmod : (ofDigits 10 ds * 10 + d) % 10 = d := by omega
      rw [hdiv, hmod, hdigits]

end Stepper.Number

namespace Stepper.OrderedMap

variable {κ α : Type} [DecidableEq κ]

theorem has_iff {k : κ} {d : OrderedMap κ α} : d.has k = true ↔ k ∈ d.keys := by
  induction d with
  | nil => simp [has, keys]
  | cons p d ih =>
    obtain ⟨l, a⟩ := p
    unfold has at ih ⊢
    by_cases h : k = l
    · simp [get?, keys, h]
    · rw [get?, if_neg h, ih]
      simp [keys, h]

end Stepper.OrderedMap

namespace Stepper.Machine

open Number

variable {o : Object} {k : Text}

/-- Keys that can be read and stand for the same index are the same. -/
theorem indexKey_keyIndex (hk : KeyFits k) (hindex : isIndexKey k = true) :
    indexKey (keyIndex k) = k := by
  simp only [isIndexKey, Bool.and_eq_true, Bool.not_eq_true', List.isEmpty_eq_false_iff,
    List.all_eq_true, Bool.or_eq_true, beq_iff_eq, bne_iff_ne] at hindex
  obtain ⟨⟨hnil, hvalues⟩, hhead⟩ := hindex
  have hdigit (c : Nat) (hc : c ∈ k) : IsDigit c := hk.digits c hc (hvalues c hc)
  have hback : (k.map (· - 0x30)).map digitChar = k := by
    rw [List.map_map]
    refine (List.map_congr_left fun c hc => ?_).trans k.map_id
    obtain ⟨hlo, hhi⟩ := hdigit c hc
    simp only [Function.comp_apply, digitChar, id_eq]
    rw [if_pos (by omega)]
    omega
  have hfirst : k.map (· - 0x30) = [0] ∨ (k.map (· - 0x30)).head? ≠ some 0 := by
    rcases hhead with rfl | hhead
    · exact .inl rfl
    · refine .inr fun hzero => hhead ?_
      rw [List.head?_map, Option.map_eq_some_iff] at hzero
      obtain ⟨c, hc, hzero⟩ := hzero
      obtain ⟨hlo, hhi⟩ := hdigit c (List.mem_of_mem_head? hc)
      rw [hc]
      congr
      omega
  rw [keyIndex, indexKey, natText, digitsIn_ofDigits (by simpa using hnil) (fun d hd => ?_) hfirst,
    hback]
  obtain ⟨c, hc, rfl⟩ := List.mem_map.mp hd
  obtain ⟨hlo, hhi⟩ := hdigit c hc
  omega

/-- An object whose keys can be listed: each property has a key of its own that can be read where it
is an index, and no property of an array is named like an element or the length. -/
structure Object.Listable (o : Object) : Prop where
  nodup : o.properties.keys.Nodup
  fits : ∀ k ∈ o.properties.keys, KeyFits k
  sizeFits : ∀ i < o.elements.size, (indexKey i).length ≤ maxDigits
  named : o.isArray = true → ∀ k ∈ o.properties.keys,
    isIndexKey k = false ∧ k ≠ Text.ofString "length"

/-- The elements of an array, then its other keys in order. -/
def Object.keysListed (o : Object) : List Text :=
  (List.range o.elements.size).map indexKey ++ keysInOrder o.properties.keys

namespace Object.Listable

variable (ho : o.Listable)

include ho

theorem ownKeys : o.ownKeys = .ok o.keysListed := by
  obtain ⟨proto, isError, frozen, properties, content⟩ := o
  unfold Object.ownKeys
  rw [orderedKeys_eq ho.fits]
  cases content <;> rfl

theorem isArray_of_lt {i : Nat} (hi : i < o.elements.size) : o.isArray = true := by
  obtain ⟨proto, isError, frozen, properties, content⟩ := o
  cases content with
  | array es => rfl
  | _ => exact absurd hi (Nat.not_lt_zero i)

theorem nodup_keysListed : o.keysListed.Nodup := by
  have hrange : ((List.range o.elements.size).map indexKey).Nodup :=
    List.Nodup.map (fun i j h => by rw [← keyIndex_indexKey i, h, keyIndex_indexKey]) List.nodup_range
  refine List.nodup_append.mpr ⟨hrange, (keysInOrder_perm _).nodup_iff.mpr ho.nodup, ?_⟩
  rintro k hk _ hnamed rfl
  obtain ⟨i, hi, rfl⟩ := List.mem_map.mp hk
  have harray := ho.isArray_of_lt (List.mem_range.mp hi)
  have hno := (ho.named harray _ ((keysInOrder_perm _).mem_iff.mp hnamed)).1
  rw [isIndexKey_indexKey] at hno
  cases hno

/-- The keys that an object lists are those that it has, but for an array's length. -/
theorem mem_keysListed (hk : KeyFits k) : k ∈ o.keysListed ↔
    o.hasOwn k = .ok true ∧ ¬ (o.isArray = true ∧ k = Text.ofString "length") := by
  have hproperties : k ∈ keysInOrder o.properties.keys ↔ o.properties.has k = true :=
    (keysInOrder_perm _).mem_iff.trans OrderedMap.has_iff.symm
  have helements : k ∈ (List.range o.elements.size).map indexKey ↔
      isIndexKey k = true ∧ keyIndex k < o.elements.size := by
    constructor
    · intro hmem
      obtain ⟨i, hi, rfl⟩ := List.mem_map.mp hmem
      rw [keyIndex_indexKey]
      exact ⟨isIndexKey_indexKey i, List.mem_range.mp hi⟩
    · rintro ⟨hindex, hlt⟩
      exact List.mem_map.mpr ⟨_, List.mem_range.mpr hlt, indexKey_keyIndex hk hindex⟩
  unfold Object.keysListed
  rw [List.mem_append, hproperties, helements]
  have hnamed := ho.named
  obtain ⟨proto, isError, frozen, properties, content⟩ := o
  cases content with
  | array es =>
    have hhas (h : properties.has k = true) := hnamed rfl k (OrderedMap.has_iff.mp h)
    have hown : Object.hasOwn ⟨proto, isError, frozen, properties, .array es⟩ k =
        (arrayIndex? k).bind fun i =>
          i.elim (.ok (k == Text.ofString "length" || properties.has k)) fun i =>
            .ok (decide (i < es.size)) := by
      refine congrArg (arrayIndex? k).bind (funext fun i => ?_)
      cases i <;> rfl
    rw [hown, hk.arrayIndex?_eq]
    by_cases hindex : isIndexKey k = true
    · have hno : properties.has k = false := by
        refine eq_false_of_ne_true fun h => ?_
        rw [(hhas h).1] at hindex
        cases hindex
      have hlength : k ≠ Text.ofString "length" := by
        rintro rfl
        exact absurd hindex (by decide)
      simp [hindex, hno, hlength, Object.elements, Except.bind]
    · have hlength (h : properties.has k = true) : k ≠ Text.ofString "length" := (hhas h).2
      simp only [hindex, Object.isArray, Except.bind]
      grind
  | _ => simp [Object.elements, Object.hasOwn, Object.isArray, pure, Except.pure]

end Object.Listable

/-- Elements come first, then indices that ascend, then the other keys as they came. -/
theorem Object.keysListed_order (o : Object) : ∃ indices, o.keysListed =
    (List.range o.elements.size).map indexKey ++ indices ++
      o.properties.keys.filter (fun k => !isIndexKey k) ∧
    (∀ k ∈ indices, isIndexKey k = true) ∧ Ascending indices := by
  refine ⟨_, (List.append_assoc _ _ _).symm, fun k hk => ?_, ascending_foldl_insertKey _ .nil⟩
  have hmem := (foldl_insertKey_perm _ []).mem_iff.mp hk
  rw [List.append_nil] at hmem
  exact (List.mem_filter.mp hmem).2

/-- Whether loops and copies see a key. -/
def Object.sees (o : Object) (k : Text) : Bool :=
  match o.properties.get? k with
  | some (.accessor _ _) => false
  | _ => true

/-- An object lists each key that it has once and in order, an array's length left out, and loops
and copies see what is no accessor of it. -/
theorem keys_are_listed_once (ho : o.Listable) {r : Ref} {w : World} (hr : w.heap.get r = o)
    (c : Context) : o.ownKeys = .ok o.keysListed ∧ o.keysListed.Nodup ∧
    (∀ k, KeyFits k → (k ∈ o.keysListed ↔
      o.hasOwn k = .ok true ∧ ¬ (o.isArray = true ∧ k = Text.ofString "length"))) ∧
    (∃ indices, o.keysListed = (List.range o.elements.size).map indexKey ++ indices ++
        o.properties.keys.filter (fun k => !isIndexKey k) ∧
      (∀ k ∈ indices, isIndexKey k = true) ∧ Ascending indices) ∧
    Action.enumerableKeys (.object r) c w = .done (o.keysListed.filter o.sees) w := by
  refine ⟨ho.ownKeys, ho.nodup_keysListed, fun _ => ho.mem_keysListed, o.keysListed_order, ?_⟩
  subst hr
  have hrun : Action.enumerableKeys (.object r) c w =
      (Action.ofExcept (w.heap.get r).ownKeys c w).bind fun keys v =>
        .done (keys.filter (w.heap.get r).sees) v := rfl
  rw [hrun, ho.ownKeys]
  rfl

/-- A digit of another kind makes a key an index that cannot be read, and no key is listed. -/
example : ∃ f, Object.ownKeys { properties := [([0xb2], .value .null)] } = .error f := ⟨_, rfl⟩

end Stepper.Machine
