import Stepper.Machine.Object

/-!
The order of keys. A key of decimal digits that is not too long can be read, so the keys of an
object can be put in order if each of its keys is either that or no index at all. To put keys in
order leaves out none and adds none, and keys that are in order stay where they are.
-/
namespace Stepper.Number

def IsDigit (c : Nat) : Prop := 0x30 ≤ c ∧ c ≤ 0x39

instance : DecidablePred IsDigit := fun c => inferInstanceAs (Decidable (0x30 ≤ c ∧ c ≤ 0x39))

variable {t : Text}

/-- Digits are their own form. -/
theorem map_asciiForm (ht : ∀ c ∈ t, IsDigit c) : t.map asciiForm = t := by
  refine (List.map_congr_left fun c hc => ?_).trans t.map_id
  obtain ⟨-, hc⟩ := ht c hc
  exact if_pos (by omega)

/-- There is nothing to strip where nothing is to be stripped. -/
theorem stripBy_eq_self {p : Nat → Bool} (ht : ∀ c ∈ t, p c = false) : Text.stripBy p t = t := by
  have hdrop (s : Text) (hs : ∀ c ∈ s, p c = false) : s.dropWhile p = s := by
    cases s with
    | nil => rfl
    | cons c s => exact List.dropWhile_cons_of_neg (by simp [hs c List.mem_cons_self])
  unfold Text.stripBy
  rw [hdrop t ht, hdrop t.reverse fun c hc => ht c (List.mem_reverse.mp hc), List.reverse_reverse]

theorem stripBy_isAsciiBlank (ht : ∀ c ∈ t, IsDigit c) : Text.stripBy isAsciiBlank t = t := by
  refine stripBy_eq_self fun c hc => ?_
  obtain ⟨hc, -⟩ := ht c hc
  rw [← Bool.not_eq_true]
  simp only [isAsciiBlank, Bool.or_eq_true, Bool.and_eq_true, decide_eq_true_eq, beq_iff_eq]
  omega

theorem takeSign_of_digits (ht : ∀ c ∈ t, IsDigit c) : takeSign t = (false, t) := by
  unfold takeSign
  split
  · exact absurd (ht _ List.mem_cons_self) (by decide)
  · exact absurd (ht _ List.mem_cons_self) (by decide)
  · rfl

theorem underscoredDigits?_of_digits (hnil : t ≠ []) (ht : ∀ c ∈ t, IsDigit c) :
    underscoredDigits? 10 t = some (t.map (· - 0x30)) := by
  have hdigit (c : Nat) (hc : IsDigit c) : charDigit? c = some (c - 0x30) := if_pos hc
  have hlt (c : Nat) (hc : IsDigit c) : c - 0x30 < 10 := by
    obtain ⟨-, hc⟩ := hc
    omega
  fun_induction underscoredDigits? 10 t with
  | case1 => exact absurd rfl hnil
  | case2 c =>
    have hc := ht c List.mem_cons_self
    simp [hdigit c hc, hlt c hc]
  | case3 c t ih =>
    exact absurd (ht 0x5f (List.mem_cons_of_mem _ List.mem_cons_self)) (by decide)
  | case4 c t hne hne' ih =>
    have hc := ht c List.mem_cons_self
    rw [hdigit c hc, Option.bind_some, if_pos (hlt c hc),
      ih (fun h => hne (h ▸ rfl)) fun d hd => ht d (List.mem_cons_of_mem c hd)]
    rfl

/-- Digits are read as the number that they write, unless they are too many. -/
theorem readInteger_eq (hnil : t ≠ []) (ht : ∀ c ∈ t, IsDigit c) : readInteger 10 t =
    if maxDigits < t.length then .error (.integerTooLong t.length)
    else .ok (ofDigits 10 (t.map (· - 0x30))) := by
  have hmarker : dropMarker 10 t = t := by
    unfold dropMarker
    split
    · next h => cases h
    · rfl
  have hten : (!isPowerOfTwo 10) = true := rfl
  simp only [readInteger, map_asciiForm ht, stripBy_isAsciiBlank ht, takeSign_of_digits ht, hmarker,
    underscoredDigits?_of_digits hnil ht, List.length_map, hten, Bool.true_and, decide_eq_true_eq]
  rfl

/-- A row of digits that is not too long is read as the number it writes. -/
theorem readInteger_of_digits (hnil : t ≠ []) (ht : ∀ c ∈ t, IsDigit c)
    (hlength : t.length ≤ maxDigits) :
    readInteger 10 t = .ok (ofDigits 10 (t.map (· - 0x30))) := by
  rw [readInteger_eq hnil ht, if_neg (Nat.not_lt.mpr hlength)]

end Stepper.Number

namespace Stepper.Machine

open Number

/-- A key without digits of other scripts, and short enough to be read where it is an index. -/
structure KeyFits (k : Text) : Prop where
  digits : ∀ c ∈ k, Text.hasDigitValue c = true → IsDigit c
  short : k.length ≤ maxDigits

/-- The index that a key of digits stands for. -/
def keyIndex (k : Text) : Nat := ofDigits 10 (k.map (· - 0x30))

/-- A key of few characters that counts as an index is read as one. -/
theorem KeyFits.readInteger_eq {k : Text} (hk : KeyFits k) (hindex : isIndexKey k = true) :
    readInteger 10 k = .ok (keyIndex k) := by
  simp only [isIndexKey, Bool.and_eq_true, List.all_eq_true] at hindex
  obtain ⟨⟨hnil, hvalues⟩, -⟩ := hindex
  exact readInteger_of_digits (by simpa using hnil) (fun c hc => hk.digits c hc (hvalues c hc))
    hk.short

/-- Puts a key before the first that stands for a greater index. -/
def insertKey (k : Text) : List Text → List Text
  | [] => [k]
  | l :: ks => if keyIndex k < keyIndex l then k :: l :: ks else l :: insertKey k ks

/-- The keys that are indices in their order, then the others as they are. -/
def keysInOrder (ks : List Text) : List Text :=
  (ks.filter isIndexKey).foldl (fun acc k => insertKey k acc) [] ++ ks.filter fun k => !isIndexKey k

def indexed (k : Text) : Nat × Text := (keyIndex k, k)

theorem insertByIndex_eq (k : Text) (ks : List Text) :
    insertByIndex (keyIndex k) k (ks.map indexed) = (insertKey k ks).map indexed := by
  induction ks with
  | nil => rfl
  | cons l ks ih =>
    rw [List.map_cons, indexed, insertByIndex, ih, insertKey]
    split <;> rfl

/-- Sorting pairs by their indices is sorting keys by theirs. -/
theorem foldl_insertByIndex (ks acc : List Text) :
    (ks.map indexed).foldl (fun acc p => insertByIndex p.1 p.2 acc) (acc.map indexed) =
      (ks.foldl (fun acc k => insertKey k acc) acc).map indexed := by
  induction ks generalizing acc with
  | nil => rfl
  | cons k ks ih =>
    rw [List.map_cons, List.foldl_cons, List.foldl_cons, ← ih, ← insertByIndex_eq]
    rfl

/-- Keys that can be read are put in order. -/
theorem orderedKeys_eq {ks : List Text} (hks : ∀ k ∈ ks, KeyFits k) :
    orderedKeys ks = .ok (keysInOrder ks) := by
  have hread : ∀ ls : List Text, (∀ k ∈ ls, KeyFits k ∧ isIndexKey k = true) →
      (ls.mapM fun k => do return ((← readInteger 10 k).toNat, k)) =
        (.ok (ls.map indexed) : Except Fault (List (Nat × Text))) := by
    intro ls hls
    induction ls with
    | nil => rfl
    | cons k ls ih =>
      obtain ⟨hk, hindex⟩ := hls k List.mem_cons_self
      rw [List.mapM_cons, ih fun l hl => hls l (List.mem_cons_of_mem k hl),
        hk.readInteger_eq hindex]
      rfl
  unfold orderedKeys
  rw [hread _ fun k hk => ⟨hks k (List.mem_filter.mp hk).1, (List.mem_filter.mp hk).2⟩]
  have hfold := foldl_insertByIndex (ks.filter isIndexKey) []
  change Except.ok (((List.map indexed _).foldl _ (List.map indexed [])).map Prod.snd ++ _) = _
  rw [hfold, List.map_map]
  exact congrArg (fun ls => Except.ok (ls ++ _)) (List.map_id _)

/-- A key is put among the others. -/
theorem insertKey_perm (k : Text) (ks : List Text) : (insertKey k ks).Perm (k :: ks) := by
  induction ks with
  | nil => exact .refl _
  | cons l ks ih =>
    unfold insertKey
    split
    · exact .refl _
    · exact (ih.cons l).trans (.swap k l ks)

theorem foldl_insertKey_perm (ks acc : List Text) :
    (ks.foldl (fun acc k => insertKey k acc) acc).Perm (ks ++ acc) := by
  induction ks generalizing acc with
  | nil => exact .refl _
  | cons k ks ih =>
    exact (ih _).trans (((insertKey_perm k acc).append_left ks).trans List.perm_middle)

/-- Keys in order are the same keys. -/
theorem keysInOrder_perm (ks : List Text) : (keysInOrder ks).Perm ks := by
  unfold keysInOrder
  refine ((foldl_insertKey_perm _ []).append_right _).trans ?_
  rw [List.append_nil]
  exact List.filter_append_perm isIndexKey ks

def Ascending (ks : List Text) : Prop := ks.Pairwise fun k l => keyIndex k ≤ keyIndex l

/-- Among keys that ascend a key finds its place. -/
theorem ascending_insertKey {ks : List Text} (hks : Ascending ks) (k : Text) :
    Ascending (insertKey k ks) := by
  induction ks with
  | nil => exact List.pairwise_singleton _ k
  | cons l ks ih =>
    obtain ⟨hl, hks'⟩ := List.pairwise_cons.mp hks
    unfold insertKey
    split
    · next h =>
      refine List.pairwise_cons.mpr ⟨fun m hm => ?_, hks⟩
      rcases List.mem_cons.mp hm with rfl | hm
      · exact Nat.le_of_lt h
      · exact Nat.le_trans (Nat.le_of_lt h) (hl m hm)
    · next h =>
      refine List.pairwise_cons.mpr ⟨fun m hm => ?_, ih hks'⟩
      rcases List.mem_cons.mp ((insertKey_perm k ks).mem_iff.mp hm) with rfl | hm
      · exact Nat.not_lt.mp h
      · exact hl m hm

theorem ascending_foldl_insertKey (ks : List Text) {acc : List Text} (h : Ascending acc) :
    Ascending (ks.foldl (fun acc k => insertKey k acc) acc) := by
  induction ks generalizing acc with
  | nil => exact h
  | cons k ks ih => exact ih (ascending_insertKey h k)

/-- A key behind all others stays there. -/
theorem insertKey_of_ascending {k : Text} {ks : List Text} (h : Ascending (ks ++ [k])) :
    insertKey k ks = ks ++ [k] := by
  induction ks with
  | nil => rfl
  | cons l ks ih =>
    obtain ⟨hl, hks⟩ := List.pairwise_cons.mp h
    have hle : keyIndex l ≤ keyIndex k := hl k (List.mem_append_right _ List.mem_cons_self)
    rw [insertKey, if_neg (Nat.not_lt.mpr hle), ih hks, List.cons_append]

/-- Keys that ascend are in order already. -/
theorem foldl_insertKey_of_ascending {ks acc : List Text} (h : Ascending (acc ++ ks)) :
    ks.foldl (fun acc k => insertKey k acc) acc = acc ++ ks := by
  induction ks generalizing acc with
  | nil => exact (List.append_nil acc).symm
  | cons k ks ih =>
    rw [List.append_cons] at h
    have hk : Ascending (acc ++ [k]) := (List.pairwise_append.mp h).1
    rw [List.foldl_cons, insertKey_of_ascending hk, ih h, ← List.append_cons]

/-- To order keys once more changes nothing. -/
theorem keysInOrder_keysInOrder (ks : List Text) :
    keysInOrder (keysInOrder ks) = keysInOrder ks := by
  have hindices := foldl_insertKey_perm (ks.filter isIndexKey) []
  have hascending := ascending_foldl_insertKey (ks.filter isIndexKey) .nil
  rw [List.append_nil] at hindices
  unfold keysInOrder
  generalize (ks.filter isIndexKey).foldl (fun acc k => insertKey k acc) [] = sorted at *
  have hsorted : ∀ k ∈ sorted, isIndexKey k = true :=
    fun k hk => (List.mem_filter.mp (hindices.mem_iff.mp hk)).2
  have hfirst : (sorted ++ ks.filter fun k => !isIndexKey k).filter isIndexKey = sorted := by
    rw [List.filter_append, List.filter_eq_self.mpr hsorted, List.filter_filter]
    simp
  have hrest : (sorted ++ ks.filter fun k => !isIndexKey k).filter (fun k => !isIndexKey k) =
      ks.filter fun k => !isIndexKey k := by
    rw [List.filter_append, List.filter_filter, List.filter_eq_nil_iff.mpr fun k hk => by
      simp [hsorted k hk]]
    simp
  rw [hfirst, hrest, @foldl_insertKey_of_ascending sorted [] hascending,
    List.nil_append]

end Stepper.Machine
