import Mathlib.Data.List.Infix
import Stepper.Proofs.Nesting
import Stepper.Proofs.Settling

/-!
Taking a text apart where another one occurs, and putting the pieces together. A text is cut at the
first occurrence of a separator in what is left of it, again and again; so no piece holds the
separator, and the pieces with the separator between them are the text. To replace all occurrences
is to put something else between the pieces.
-/
namespace Stepper.Text

variable {t p : Text}

theorem startsWith_iff : startsWith t p = true ↔ p <+: t := by
  induction t generalizing p with
  | nil => cases p <;> simp [startsWith]
  | cons c t ih =>
    cases p with
    | nil => simp
    | cons d p =>
      rw [startsWith, Bool.and_eq_true, beq_iff_eq, ih, List.cons_prefix_cons, eq_comm]

/-- What occurs in a text begins somewhere in it. -/
theorem exists_prefix_drop (hp : p ≠ []) (h : p <:+: t) : ∃ i < t.length, p <+: t.drop i := by
  obtain ⟨before, after, rfl⟩ := h
  have hlength : 0 < p.length := List.length_pos_iff.mpr hp
  refine ⟨before.length, by simp only [List.length_append]; omega, after, ?_⟩
  rw [List.append_assoc, List.drop_left]

/-- The pieces of a text between occurrences of `p`, each of which is the first in what is left. -/
inductive Cut (p : Text) : Text → List Text → Prop
  | whole {t : Text} (h : ¬ p <:+: t) : Cut p t [t]
  | behind {piece rest : Text} {pieces : List Text}
      (h : ∀ i < piece.length, ¬ p <+: (piece ++ p ++ rest).drop i) (hrest : Cut p rest pieces) :
      Cut p (piece ++ p ++ rest) (piece :: pieces)

/-- The members that still belong to the last occurrence are passed over. -/
theorem occurrencesFrom_skip (p t : Text) (i skip : Nat) :
    occurrencesFrom p t i skip = occurrencesFrom p (t.drop skip) (i + skip) 0 := by
  induction t generalizing i skip with
  | nil => simp [occurrencesFrom]
  | cons c t ih =>
    cases skip with
    | zero => rfl
    | succ skip =>
      rw [occurrencesFrom, ih, List.drop_succ_cons, Nat.add_right_comm]
      rfl

theorem occurrencesFrom_append (hp : p ≠ []) (rest : Text) (i : Nat) :
    occurrencesFrom p (p ++ rest) i 0 = i :: occurrencesFrom p rest (i + p.length) 0 := by
  obtain ⟨c, q, rfl⟩ := List.exists_cons_of_ne_nil hp
  have hstarts : startsWith (c :: (q ++ rest)) (c :: q) = true :=
    startsWith_iff.mpr (List.prefix_append (c :: q) rest)
  rw [List.cons_append, occurrencesFrom, if_pos hstarts, occurrencesFrom_skip, List.length_cons,
    Nat.add_sub_cancel, List.drop_left, Nat.add_right_comm]
  rfl

theorem findFrom_spec {i j : Nat} (h : findFrom p t i = some j) :
    i ≤ j ∧ p <+: t.drop (j - i) := by
  induction t generalizing i with
  | nil =>
    rw [findFrom] at h
    split at h
    · next hp => cases h; simp [List.isEmpty_iff.mp hp]
    · cases h
  | cons c t ih =>
    rw [findFrom] at h
    split at h
    · next hp => cases h; simpa using startsWith_iff.mp hp
    · obtain ⟨hle, hp⟩ := ih h
      obtain ⟨k, rfl⟩ := Nat.exists_eq_add_of_le hle
      refine ⟨by omega, ?_⟩
      rwa [Nat.add_sub_cancel_left, Nat.add_assoc, Nat.add_sub_cancel_left, Nat.add_comm 1,
        List.drop_succ_cons] at *

/-- The next occurrence is the first that a search finds. -/
theorem occurrencesFrom_of_findFrom (hp : p ≠ []) (t : Text) (i : Nat) :
    occurrencesFrom p t i 0 = match findFrom p t i with
      | none => []
      | some j => j :: occurrencesFrom p (t.drop (j - i + p.length)) (j + p.length) 0 := by
  induction t generalizing i with
  | nil => rw [occurrencesFrom, findFrom, if_neg (by simpa using hp)]
  | cons c t ih =>
    by_cases hstarts : startsWith (c :: t) p = true
    · obtain ⟨rest, hrest⟩ := startsWith_iff.mp hstarts
      rw [findFrom, if_pos hstarts, ← hrest, occurrencesFrom_append hp]
      simp only [Nat.sub_self, Nat.zero_add, List.drop_left]
    · rw [occurrencesFrom, findFrom, if_neg hstarts, if_neg hstarts, ih]
      cases hfound : findFrom p t (i + 1) with
      | none => rfl
      | some j =>
        have hle : i + 1 ≤ j := (findFrom_spec hfound).1
        have hdrop : j - i + p.length = j - (i + 1) + p.length + 1 := by omega
        simp only [hdrop, List.drop_succ_cons]

/-- Searches that go on behind each match find the occurrences, if there are as many as members are
left and one more. -/
theorem foundFrom_eq (hp : p ≠ []) {searches start : Nat} (hstart : start ≤ t.length)
    (hsearches : t.length < searches + start) :
    foundFrom t p searches start = occurrencesFrom p (t.drop start) start 0 := by
  induction searches generalizing start with
  | zero => omega
  | succ searches ih =>
    rw [foundFrom, find?, if_pos hstart, occurrencesFrom_of_findFrom hp]
    cases hfound : findFrom p (t.drop start) start with
    | none => rfl
    | some j =>
      obtain ⟨hle, hprefix⟩ := findFrom_spec hfound
      have hlength : 0 < p.length := List.length_pos_iff.mpr hp
      have hroom : p.length ≤ t.length - start - (j - start) := by
        simpa only [List.length_drop] using hprefix.length_le
      have hrest : foundFrom t p searches (j + p.length) =
          occurrencesFrom p (t.drop (j + p.length)) (j + p.length) 0 := ih (by omega) (by omega)
      have hnext : start + (j - start + p.length) = j + p.length := by omega
      simp only [hrest, List.drop_drop, hnext]

theorem found_eq_occurrences (t p : Text) : found t p = occurrences t p := by
  unfold found occurrences
  split
  · rfl
  · next hp => exact foundFrom_eq (by simpa using hp) (Nat.zero_le _) (by omega)

/-- The pieces from some place on, if no occurrence begins between that place and the one where the
search goes on. -/
theorem cut_piecesBetween (hp : p ≠ []) (front piece rest : Text)
    (h : ∀ i < piece.length, ¬ p <+: (piece ++ rest).drop i) :
    Cut p (piece ++ rest) (piecesBetween (front ++ piece ++ rest) p.length
      (occurrencesFrom p rest (front.length + piece.length) 0) front.length) := by
  induction hn : rest.length using Nat.strong_induction_on generalizing front piece rest with
  | _ n ih =>
    by_cases hstarts : p <+: rest
    · -- the search meets an occurrence: the piece ends here
      obtain ⟨rest, rfl⟩ := hstarts
      have hshorter : rest.length < n := by
        have hlength : 0 < p.length := List.length_pos_iff.mpr hp
        rw [List.length_append] at hn
        omega
      have hslice : slice (front ++ piece ++ (p ++ rest)) front.length
          (front.length + piece.length) = piece := by
        rw [slice, ← List.length_append, List.take_left, List.drop_left]
      have hrest := ih rest.length hshorter (front ++ piece ++ p) [] rest nofun rfl
      simp only [List.append_assoc, List.nil_append, List.length_append, List.length_nil,
        Nat.add_zero] at hrest
      rw [occurrencesFrom_append hp, piecesBetween, hslice]
      rw [← List.append_assoc] at h ⊢
      refine .behind h ?_
      simpa only [List.append_assoc, Nat.add_assoc] using hrest
    · cases rest with
      | nil =>
        have hdrop : (front ++ piece ++ []).drop front.length = piece ++ [] := by
          rw [List.append_nil, List.append_nil, List.drop_left]
        rw [occurrencesFrom, piecesBetween, hdrop]
        refine .whole fun hoccurs => ?_
        obtain ⟨i, hi, hat⟩ := exists_prefix_drop hp hoccurs
        exact h i (by simpa using hi) hat
      | cons c rest =>
        have hlater : ∀ i < (piece ++ [c]).length, ¬ p <+: (piece ++ [c] ++ rest).drop i := by
          intro i hi
          rw [List.append_cons piece c rest] at h
          rw [List.length_append, List.length_singleton] at hi
          obtain hi | rfl : i < piece.length ∨ i = piece.length := by omega
          · exact h i hi
          · rwa [List.append_assoc, List.drop_left]
        have hrest := ih rest.length (by simp [← hn]) front (piece ++ [c]) rest hlater rfl
        have hnot : ¬ startsWith (c :: rest) p = true := fun hs => hstarts (startsWith_iff.mp hs)
        rw [occurrencesFrom, if_neg hnot]
        simpa only [List.append_assoc, List.length_append, List.length_singleton,
          List.singleton_append, Nat.add_assoc] using hrest

theorem splitOn_eq (hp : p ≠ []) (t : Text) :
    splitOn t p = piecesBetween t p.length (occurrences t p) 0 := by
  rw [splitOn, if_neg (by simpa using hp)]

theorem cut_splitOn (hp : p ≠ []) (t : Text) : Cut p t (splitOn t p) := by
  have hoccurrences : occurrences t p = occurrencesFrom p t 0 0 := if_neg (by simpa using hp)
  rw [splitOn_eq hp, hoccurrences]
  exact cut_piecesBetween hp [] [] t nofun

theorem piecesBetween_ne_nil (t : Text) (width : Nat) (is : List Nat) (last : Nat) :
    piecesBetween t width is last ≠ [] := by
  cases is <;> exact List.cons_ne_nil _ _

theorem join_cons (sep piece : Text) {pieces : List Text} (h : pieces ≠ []) :
    join sep (piece :: pieces) = piece ++ sep ++ join sep pieces := by
  cases pieces with
  | nil => exact absurd rfl h
  | cons => rfl

namespace Cut

variable {pieces : List Text}

theorem ne_nil (h : Cut p t pieces) : pieces ≠ [] := by
  cases h <;> exact List.cons_ne_nil _ _

theorem join_eq (h : Cut p t pieces) : join p pieces = t := by
  induction h with
  | whole h => rfl
  | behind h hrest ih => rw [join_cons p _ hrest.ne_nil, ih]

theorem not_occurs (hp : p ≠ []) (h : Cut p t pieces) : ∀ piece ∈ pieces, ¬ p <:+: piece := by
  induction h with
  | whole h => simpa using h
  | @behind piece rest pieces h hrest ih =>
    refine List.forall_mem_cons.mpr ⟨fun hoccurs => ?_, ih⟩
    obtain ⟨i, hi, hat⟩ := exists_prefix_drop hp hoccurs
    refine h i hi ?_
    rw [List.append_assoc, List.drop_append_of_le_length (Nat.le_of_lt hi)]
    exact hat.trans (List.prefix_append _ _)

theorem length_le (hp : p ≠ []) (h : Cut p t pieces) : pieces.length ≤ t.length + 1 := by
  induction h with
  | whole h => simp
  | behind h hrest ih =>
    have hlength : 0 < p.length := List.length_pos_iff.mpr hp
    simp only [List.length_cons, List.length_append]
    omega

theorem eq_singleton (h : Cut p t pieces) (hnot : ¬ p <:+: t) : pieces = [t] := by
  cases h with
  | whole h => rfl
  | behind h hrest => exact absurd (List.infix_append _ p _) hnot

end Cut

theorem splitOn_nil (t : Text) : splitOn t [] = t.map fun c => [c] := rfl

theorem join_nil (pieces : List Text) : join [] pieces = pieces.flatten := by
  induction pieces with
  | nil => rfl
  | cons piece pieces ih =>
    cases pieces with
    | nil => simp [join]
    | cons => rw [join_cons _ _ (List.cons_ne_nil _ _), ih, List.append_nil]; rfl

theorem join_splitOn (t sep : Text) : join sep (splitOn t sep) = t := by
  by_cases hsep : sep = []
  · rw [hsep, splitOn_nil, join_nil]
    exact t.flatMap_singleton'
  · exact (cut_splitOn hsep t).join_eq

theorem length_splitOn_le (t sep : Text) : (splitOn t sep).length ≤ t.length + 1 := by
  by_cases hsep : sep = []
  · rw [hsep, splitOn_nil, List.length_map]
    exact Nat.le_succ _
  · exact (cut_splitOn hsep t).length_le hsep

/-- Where a text does not occur there is nothing to replace. -/
theorem replaceEach_of_not_occurs (hp : p ≠ []) (h : ¬ p <:+: t) (r : Text) :
    replaceEach t p r = t := by
  rw [replaceEach, (cut_splitOn hp t).eq_singleton h]
  rfl

theorem ofString_matched : ofString "$&" = [0x24, 0x26] := by decide +kernel
theorem ofString_escaped : ofString "$$" = [0x24, 0x24] := by decide +kernel
theorem ofString_dollar : ofString "$" = [0x24] := by decide +kernel

theorem expandTemplate_of_no_dollar {r : Text} (h : 0x24 ∉ r) (found : Text) :
    expandTemplate found r = r := by
  have hmatched : ¬ ofString "$&" <:+: r := fun hoccurs =>
    h (hoccurs.subset (by simp [ofString_matched]))
  have hescaped : ¬ ofString "$$" <:+: r := fun hoccurs =>
    h (hoccurs.subset (by simp [ofString_escaped]))
  rw [expandTemplate, replaceEach_of_not_occurs (by simp [ofString_matched]) hmatched,
    replaceEach_of_not_occurs (by simp [ofString_escaped]) hescaped]

end Stepper.Text

namespace Stepper.Builtin

open Machine Machine.Action Execution

variable {c : Context} {w : World} {t p sep : Text} {r : Ref}

theorem callText_split (t sep : Text) (c : Context) (w : World) :
    callText .split (.text t) [.text sep] c w = newArray ((Text.splitOn t sep).map .text) c w := by
  change (toText (.text sep) >>= fun s => newArray ((Text.splitOn t s).map .text)) c w = _
  rw [bind_of_done (toText_text sep c w)]

theorem joinElements_eq {ts : List Text} (hr : (w.heap.get r).elements = (ts.map .text).toArray)
    (hsize : ts.length < maxRounds) (sep : Text) :
    joinElements r sep c w = .done (Text.join sep ts) w := by
  have hread : elementsOf r c w = .done (ts.map .text).toArray w := hr ▸ rfl
  have hlength : (ts.map Value.text).toArray.size < maxRounds := by simpa using hsize
  have hjoin : (joinElements r sep c w).Settles w (· = Text.join sep ts) fun _ => False := by
    unfold joinElements
    refine (settles_repeating (R := fun v u => v = Value.text u) (Text.join sep)
      (fun i v acc hi => ?_) (fun i acc hi => ?_) hlength).imp ?_ fun _ => id
    · obtain ⟨u, -, rfl⟩ : ∃ u ∈ ts, Value.text u = v := by
        simpa using Array.mem_of_getElem? hi
      rw [bind_of_done hread]
      simp only [hi]
      have hnext : (toText (.text u) >>= fun t => pure (.inl (i + 1, t :: acc)) :
          Action ((Nat × List Text) ⊕ Text)) c w = .done (.inl (i + 1, u :: acc)) w :=
        bind_of_done (toText_text u c w) _
      exact .inl ⟨_, ⟨u, rfl, rfl⟩, hnext⟩
    · rw [bind_of_done hread]
      simp only [hi]
      rfl
    · rintro _ ⟨us, hus, rfl⟩
      rw [List.toList_toArray, List.forall₂_map_left_iff] at hus
      have heq : List.Forall₂ Eq ts us := hus.imp fun _ _ h => Value.text.inj h
      rw [List.forall₂_eq_eq_eq] at heq
      rw [heq]
  obtain ⟨_, rfl, hdone⟩ := hjoin.done
  exact hdone

theorem callArray_join {ts : List Text}
    (hr : (w.heap.get r).content = .array (ts.map .text).toArray) (hsize : ts.length < maxRounds) (sep : Text) :
    callArray .join (.object r) [.text sep] c w = .done (.text (Text.join sep ts)) w := by
  have helements : (w.heap.get r).elements = (ts.map .text).toArray := by
    simp [Object.elements, hr]
  have harray : (w.heap.get r).isArray = true := by simp [Object.isArray, hr]
  change joinArray (.object r) (.text sep) c w = _
  unfold joinArray
  refine (bind_of_done (toText_text sep c w) _).trans ?_
  refine (bind_of_done (thisArray_eq harray "join") _).trans ?_
  exact bind_of_done (joinElements_eq helements hsize sep) _

theorem replacement_text (r found : Text) (i : Nat) (t : Text) (c : Context) (w : World) :
    replacement (.text r) found i t c w = .done (Text.expandTemplate found r) w := by
  change (toText (.text r) >>= fun s => pure (Text.expandTemplate found s) : Action Text) c w = _
  rw [bind_of_done (toText_text r c w)]
  rfl

/-- What stands for each match is put between the pieces. -/
theorem replaceAt_text (t p r : Text) (is : List Nat) (last : Nat) (done : Text) (c : Context)
    (w : World) : replaceAt t p (.text r) is last done c w = .done
      (done ++ Text.join (Text.expandTemplate p r) (Text.piecesBetween t p.length is last)) w := by
  induction is generalizing last done with
  | nil => rfl
  | cons i is ih =>
    rw [replaceAt, bind_of_done (replacement_text r p i t c w), ih, Text.piecesBetween,
      Text.join_cons _ _ (Text.piecesBetween_ne_nil t _ is _)]
    simp only [List.append_assoc]

theorem callText_replaceAll (t p r : Text) (c : Context) (w : World) :
    callText .replaceAll (.text t) [.text p, .text r] c w = .done (.text
      (Text.join (Text.expandTemplate p r)
        (Text.piecesBetween t p.length (Text.occurrences t p) 0))) w := by
  have hreplace : replaceAll t (.text p) (.text r) c w = .done (Text.join (Text.expandTemplate p r)
      (Text.piecesBetween t p.length (Text.occurrences t p) 0)) w := by
    unfold replaceAll
    rw [bind_of_done (toText_text p c w), replaceAt_text, List.nil_append,
      Text.found_eq_occurrences]
  change (replaceAll t (.text p) (.text r) >>= fun s => pure (.text s) : Action Value) c w = _
  rw [bind_of_done hreplace]
  rfl

/-- A text is taken apart at one text, and the array of its pieces is joined with another. -/
def splitThenJoin (t sep glue : Text) : Action Value := do
  let pieces ← callText .split (.text t) [.text sep]
  callArray .join pieces [.text glue]

/-- The pieces are in a new array. -/
structure SplitInto (w : World) (pieces : List Text) (r : Ref) (v : World) : Prop where
  fresh : w.heap.objects.size ≤ r.index
  content : (v.heap.get r).content = .array (pieces.map .text).toArray
  grows : w.heap.Grows v.heap
  rest : v = { w with heap := v.heap }

theorem exists_splitInto (t sep : Text) (c : Context) (w : World) :
    ∃ r v, callText .split (.text t) [.text sep] c w = .done (.object r) v ∧
      SplitInto w (Text.splitOn t sep) r v := by
  refine ⟨_, _, (callText_split t sep c w).trans (newArray_eq _ c w), Nat.le_refl _, ?_,
    w.heap.grows_alloc _, rfl⟩
  dsimp only
  rw [Heap.get_alloc]
  rfl

theorem splitThenJoin_eq (ht : t.length + 1 < maxRounds) (sep glue : Text) (c : Context)
    (w : World) : ∃ v, splitThenJoin t sep glue c w =
      .done (.text (Text.join glue (Text.splitOn t sep))) v := by
  obtain ⟨r, v, hsplit, hv⟩ := exists_splitInto t sep c w
  refine ⟨v, ?_⟩
  unfold splitThenJoin
  rw [bind_of_done hsplit,
    callArray_join hv.content (Nat.lt_of_le_of_lt (Text.length_splitOn_le t sep) ht)]

/-- A text that is split comes apart into pieces that do not hold the separator and, joined with it,
are the text again; what takes the place of all occurrences of a text is what the pieces are joined
with. An array of more pieces than a loop has rounds cannot be joined. -/
theorem split_and_join_are_inverse (t : Text) (c : Context) (w : World) :
    (∀ sep, ∃ r v, callText .split (.text t) [.text sep] c w = .done (.object r) v ∧
      SplitInto w (Text.splitOn t sep) r v ∧ Text.join sep (Text.splitOn t sep) = t ∧
      (sep ≠ [] → ∀ piece ∈ Text.splitOn t sep, ¬ sep <:+: piece) ∧
      (t.length + 1 < maxRounds →
        callArray .join (.object r) [.text sep] c v = .done (.text t) v)) ∧
    ∀ p r, p ≠ [] → 0x24 ∉ r →
      callText .replaceAll (.text t) [.text p, .text r] c w =
        .done (.text (Text.join r (Text.splitOn t p))) w ∧
      (t.length + 1 < maxRounds → ∃ v,
        splitThenJoin t p r c w = .done (.text (Text.join r (Text.splitOn t p))) v) := by
  refine ⟨fun sep => ?_, fun p r hp hr => ⟨?_, fun ht => splitThenJoin_eq ht p r c w⟩⟩
  · obtain ⟨r, v, hsplit, hv⟩ := exists_splitInto t sep c w
    refine ⟨r, v, hsplit, hv, Text.join_splitOn t sep,
      fun hsep => (Text.cut_splitOn hsep t).not_occurs hsep, fun ht => ?_⟩
    have hjoin := callArray_join (c := c) hv.content
      (Nat.lt_of_le_of_lt (Text.length_splitOn_le t sep) ht) sep
    rwa [Text.join_splitOn] at hjoin
  · rw [callText_replaceAll, Text.expandTemplate_of_no_dollar hr, Text.splitOn_eq hp]

/-- The first occurrence is at the front, and one that overlaps it does not count. -/
theorem overlapping_occurrences_are_split : ∃ r v,
    callText .split (.text (Text.ofString "aaaba")) [.text (Text.ofString "aa")]
      (outermostContext "" false) {} = .done (.object r) v ∧
    SplitInto {} [[], Text.ofString "aba"] r v ∧
    callArray .join (.object r) [.text (Text.ofString "aa")] (outermostContext "" false) v =
      .done (.text (Text.ofString "aaaba")) v ∧
    callText .replaceAll (.text (Text.ofString "aaaba"))
      [.text (Text.ofString "aa"), .text (Text.ofString "-")] (outermostContext "" false) {} =
        .done (.text (Text.ofString "-aba")) {} := by
  have hpieces : Text.splitOn (Text.ofString "aaaba") (Text.ofString "aa") =
      [[], Text.ofString "aba"] := by decide +kernel
  have hjoin : Text.join (Text.ofString "-") [[], Text.ofString "aba"] = Text.ofString "-aba" := by
    decide +kernel
  obtain ⟨hsplits, hreplaces⟩ := split_and_join_are_inverse (Text.ofString "aaaba")
    (outermostContext "" false) {}
  obtain ⟨r, v, hsplit, hv, -, -, hjoined⟩ := hsplits (Text.ofString "aa")
  have hreplace := (hreplaces (Text.ofString "aa") (Text.ofString "-") (by decide +kernel)
    (by decide +kernel)).1
  rw [hpieces] at hv hreplace
  rw [hjoin] at hreplace
  exact ⟨r, v, hsplit, hv, hjoined (by decide +kernel), hreplace⟩

end Stepper.Builtin
