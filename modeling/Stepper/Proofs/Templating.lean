import Stepper.Proofs.Splitting

/-!
Templates of replacements. Read once from the left, a doubled dollar sign stands for one and a
dollar sign before an ampersand, with it, for the match. The machine reads a template twice, for the
match and then for doubled dollar signs; so it reads again what it has put in. Where the match has
no dollar sign and no doubled one stands before an ampersand, both readings give the same.
-/
namespace Stepper.Text

variable {t p r : Text} {c : Nat}

namespace Cut

variable {pieces pieces' : List Text}

/-- A text is cut in one way only. -/
theorem unique {t' : Text} (h : Cut p t pieces) (h' : Cut p t' pieces') (ht : t = t') :
    pieces = pieces' := by
  induction h generalizing t' pieces' with
  | whole h => exact (h'.eq_singleton (ht ▸ h)).trans (ht ▸ rfl) |>.symm
  | @behind piece rest pieces h hrest ih =>
    cases h' with
    | whole h' => exact absurd (ht ▸ List.infix_append piece p rest) h'
    | @behind piece' rest' pieces' h' hrest' =>
      -- neither occurrence is before the other
      have hat (q s : Text) : p <+: (q ++ p ++ s).drop q.length := by
        rw [List.append_assoc, List.drop_left]
        exact List.prefix_append _ _
      have hlength : piece.length = piece'.length := by
        obtain hlt | heq | hgt := Nat.lt_trichotomy piece.length piece'.length
        · exact absurd (ht ▸ hat piece rest) (h' _ hlt)
        · exact heq
        · exact absurd (ht ▸ hat piece' rest') (h _ hgt)
      obtain ⟨hfront, hrests⟩ := List.append_inj ht (by simp [hlength])
      rw [List.append_cancel_right hfront, ih hrest' hrests]

theorem cons {piece : Text} (h : Cut p t (piece :: pieces)) (hnot : ¬ p <+: c :: t) :
    Cut p (c :: t) ((c :: piece) :: pieces) := by
  cases h with
  | whole h => exact .whole fun hoccurs => (List.infix_cons_iff.mp hoccurs).elim hnot h
  | @behind _ rest _ h hrest =>
    refine @Cut.behind _ (c :: piece) _ _ (fun i hi => ?_) hrest
    cases i with
    | zero => exact hnot
    | succ i => exact h i (Nat.lt_of_succ_lt_succ hi)

end Cut

theorem splitOn_eq_of_cut {pieces : List Text} (hp : p ≠ []) (h : Cut p t pieces) :
    splitOn t p = pieces := (cut_splitOn hp t).unique h rfl

theorem replaceEach_nil (hp : p ≠ []) (r : Text) : replaceEach [] p r = [] :=
  replaceEach_of_not_occurs hp (fun h => hp (List.infix_nil.mp h)) r

theorem replaceEach_append (hp : p ≠ []) (t r : Text) :
    replaceEach (p ++ t) p r = r ++ replaceEach t p r := by
  have hcut : Cut p (p ++ t) ([] :: splitOn t p) := @Cut.behind _ [] _ _ nofun (cut_splitOn hp t)
  rw [replaceEach, splitOn_eq_of_cut hp hcut, join_cons r [] (cut_splitOn hp t).ne_nil]
  rfl

theorem replaceEach_cons (hp : p ≠ []) (hnot : ¬ p <+: c :: t) (r : Text) :
    replaceEach (c :: t) p r = c :: replaceEach t p r := by
  obtain ⟨piece, pieces, hpieces⟩ := List.exists_cons_of_ne_nil (cut_splitOn hp t).ne_nil
  have hcut := (hpieces ▸ cut_splitOn hp t).cons hnot
  rw [replaceEach, replaceEach, splitOn_eq_of_cut hp hcut, hpieces]
  cases pieces <;> rfl

/-- A template read once from the left. -/
def readOnce (found : Text) : Text → Text
  | 0x24 :: 0x24 :: r => 0x24 :: readOnce found r
  | 0x24 :: 0x26 :: r => found ++ readOnce found r
  | c :: r => c :: readOnce found r
  | [] => []

/-- No doubled dollar sign stands before an ampersand. -/
def KeepsApart : Text → Prop
  | 0x24 :: 0x24 :: r => r.head? ≠ some 0x26 ∧ KeepsApart r
  | 0x24 :: 0x26 :: r => KeepsApart r
  | _ :: r => KeepsApart r
  | [] => True

/-- The first pass puts in the match. -/
def putMatch (found r : Text) : Text := replaceEach r (ofString "$&") found

/-- The second pass makes one of each two dollar signs. -/
def halve (r : Text) : Text := replaceEach r (ofString "$$") (ofString "$")

theorem expandTemplate_eq (found r : Text) :
    expandTemplate found r = halve (putMatch found r) := rfl

theorem putMatch_nil (found : Text) : putMatch found [] = [] :=
  replaceEach_nil (by simp [ofString_matched]) found

theorem putMatch_matched (found r : Text) :
    putMatch found (0x24 :: 0x26 :: r) = found ++ putMatch found r := by
  have h := replaceEach_append (p := ofString "$&") (by simp [ofString_matched]) r found
  rw [ofString_matched] at h
  rwa [putMatch, putMatch, ofString_matched]

theorem putMatch_cons (h : c = 0x24 → r.head? ≠ some 0x26) (found : Text) :
    putMatch found (c :: r) = c :: putMatch found r := by
  refine replaceEach_cons (by simp [ofString_matched]) (fun hp => ?_) found
  rw [ofString_matched, List.cons_prefix_cons] at hp
  obtain ⟨rfl, s, rfl⟩ := hp
  exact h rfl rfl

theorem halve_nil : halve [] = [] := replaceEach_nil (by simp [ofString_escaped]) _

theorem halve_escaped (r : Text) : halve (0x24 :: 0x24 :: r) = 0x24 :: halve r := by
  have h := replaceEach_append (p := ofString "$$") (by simp [ofString_escaped]) r (ofString "$")
  rw [ofString_escaped, ofString_dollar] at h
  rwa [halve, halve, ofString_escaped, ofString_dollar]

theorem halve_cons (h : c = 0x24 → r.head? ≠ some 0x24) : halve (c :: r) = c :: halve r := by
  refine replaceEach_cons (by simp [ofString_escaped]) (fun hp => ?_) _
  rw [ofString_escaped, List.cons_prefix_cons] at hp
  obtain ⟨rfl, s, rfl⟩ := hp
  exact h rfl rfl

theorem halve_append_of_no_dollar {found : Text} (h : 0x24 ∉ found) (r : Text) :
    halve (found ++ r) = found ++ halve r := by
  induction found with
  | nil => rfl
  | cons c found ih =>
    rw [List.mem_cons, not_or] at h
    rw [List.cons_append, halve_cons (fun hc => absurd hc.symm h.1), ih h.2, List.cons_append]

/-- What the first pass leaves at the front, if it puts nothing there. -/
theorem head?_putMatch (h : r.head? ≠ some 0x24) (found : Text) :
    (putMatch found r).head? = r.head? := by
  cases r with
  | nil => rw [putMatch_nil]
  | cons d r => rw [putMatch_cons fun hd => absurd (congrArg some hd) h]; rfl

/-- Two passes are one where nothing that is put in is read again. -/
theorem expandTemplate_eq_readOnce {found : Text} (hfound : 0x24 ∉ found) (hr : KeepsApart r) :
    expandTemplate found r = readOnce found r := by
  rw [expandTemplate_eq]
  fun_induction readOnce found r with
  | case1 r ih =>
    obtain ⟨hhead, hr⟩ := hr
    rw [putMatch_cons (fun _ => by simp), putMatch_cons fun _ => hhead, halve_escaped, ih hr]
  | case2 r ih =>
    rw [putMatch_matched, halve_append_of_no_dollar hfound, ih hr]
  | case3 c r hescaped hmatched ih =>
    have hr : KeepsApart r := by
      unfold KeepsApart at hr
      split at hr
      · next heq => cases heq; exact absurd rfl (hescaped _ rfl)
      · next heq => cases heq; exact absurd rfl (hmatched _ rfl)
      · next heq => cases heq; exact hr
      · next heq => cases heq
    have hd : c = 0x24 → r.head? ≠ some 0x24 ∧ r.head? ≠ some 0x26 := by
      rintro rfl
      refine ⟨fun h => ?_, fun h => ?_⟩ <;> obtain ⟨s, rfl⟩ := List.head?_eq_some_iff.mp h
      · exact hescaped s rfl rfl
      · exact hmatched s rfl rfl
    rw [putMatch_cons fun hc => (hd hc).2, halve_cons fun hc => ?_, ih hr]
    rw [head?_putMatch (hd hc).1]
    exact (hd hc).1
  | case4 => rw [putMatch_nil, halve_nil]

/-- A match that stands for itself is read as the template it is put into. -/
theorem expandTemplate_matched (h : ¬ ofString "$$" <:+: p) :
    expandTemplate p (ofString "$&") = p := by
  rw [expandTemplate_eq, ofString_matched, putMatch_matched, putMatch_nil, List.append_nil]
  exact replaceEach_of_not_occurs (by simp [ofString_escaped]) h _

/-- A doubled dollar sign in a match loses one half. -/
example : expandTemplate (ofString "$$") (ofString "$&") = ofString "$" := by decide +kernel

/-- A text with something in place of the first occurrence of another one. -/
def replaceOnce (t p r : Text) : Text :=
  match t.find? p 0 with
  | none => t
  | some i => t.take i ++ r ++ t.drop (i + p.length)

/-- A text with something in place of all occurrences of another one. -/
def replaceEvery (t p r : Text) : Text := join r (piecesBetween t p.length (occurrences t p) 0)

theorem replaceOnce_self (t p : Text) : replaceOnce t p p = t := by
  unfold replaceOnce
  split
  · rfl
  · next i hi =>
    rw [find?, if_pos (Nat.zero_le _)] at hi
    obtain ⟨-, rest, hrest⟩ := findFrom_spec hi
    rw [Nat.sub_zero, List.drop_zero] at hrest
    rw [← List.drop_drop, ← hrest, List.drop_left, List.append_assoc, hrest, List.take_append_drop]

/-- Between places that ascend lies all of a text. -/
theorem join_piecesBetween_zero {is : List Nat} {last : Nat} (h : List.IsChain (· ≤ ·) (last :: is))
    (t : Text) : join [] (piecesBetween t 0 is last) = t.drop last := by
  induction is generalizing last with
  | nil => rfl
  | cons i is ih =>
    obtain ⟨hle, his⟩ := List.isChain_cons_cons.mp h
    rw [piecesBetween, join_cons _ _ (piecesBetween_ne_nil t _ is _), Nat.add_zero, ih his,
      List.append_nil, slice]
    conv_rhs => rw [← List.take_append_drop i t, List.drop_append]
    have hrest : (t.drop i).drop (last - (t.take i).length) = t.drop i := by
      rw [List.drop_drop, List.drop_eq_drop_iff, List.length_take]
      omega
    rw [hrest]

theorem replaceEvery_self (t p : Text) : replaceEvery t p p = t := by
  by_cases hp : p = []
  · rw [hp]
    have hascend : List.IsChain (· ≤ ·) (0 :: List.range (t.length + 1)) := by
      refine List.isChain_iff_pairwise.mpr (List.pairwise_cons.mpr ⟨fun _ _ => Nat.zero_le _, ?_⟩)
      exact List.pairwise_lt_range.imp Nat.le_of_lt
    exact join_piecesBetween_zero hascend t
  · rw [replaceEvery, ← splitOn_eq hp, join_splitOn]

end Stepper.Text

namespace Stepper.Builtin

open Machine Machine.Action Execution

variable {t p r : Text}

theorem callText_replaceEvery (t p r : Text) (c : Context) (w : World) :
    callText .replaceAll (.text t) [.text p, .text r] c w =
      .done (.text (Text.replaceEvery t p (Text.expandTemplate p r))) w :=
  callText_replaceAll t p r c w

theorem callText_replace (t p r : Text) (c : Context) (w : World) :
    callText .replace (.text t) [.text p, .text r] c w =
      .done (.text (Text.replaceOnce t p (Text.expandTemplate p r))) w := by
  have hreplace : replaceFirst t (.text p) (.text r) c w =
      .done (Text.replaceOnce t p (Text.expandTemplate p r)) w := by
    unfold replaceFirst Text.replaceOnce
    rw [bind_of_done (toText_text p c w)]
    cases t.find? p 0 with
    | none => rfl
    | some i => exact bind_of_done (replacement_text r p i t c w) _
  change (replaceFirst t (.text p) (.text r) >>= fun s => pure (.text s) : Action Value) c w = _
  rw [bind_of_done hreplace]
  rfl

/-- A template whose dollar signs are not mixed up, for a match without any, is read once. -/
theorem templates_are_read_once (hp : 0x24 ∉ p) (hr : Text.KeepsApart r) (t : Text) (c : Context)
    (w : World) :
    callText .replace (.text t) [.text p, .text r] c w =
      .done (.text (Text.replaceOnce t p (Text.readOnce p r))) w ∧
    callText .replaceAll (.text t) [.text p, .text r] c w =
      .done (.text (Text.replaceEvery t p (Text.readOnce p r))) w := by
  rw [callText_replace, callText_replaceEvery, Text.expandTemplate_eq_readOnce hp hr]
  exact ⟨rfl, rfl⟩

/-- To put a match without doubled dollar signs in its own place changes nothing. -/
theorem matches_replace_themselves (hp : ¬ Text.ofString "$$" <:+: p) (t : Text) (c : Context)
    (w : World) :
    callText .replace (.text t) [.text p, .text (Text.ofString "$&")] c w = .done (.text t) w ∧
    callText .replaceAll (.text t) [.text p, .text (Text.ofString "$&")] c w =
      .done (.text t) w := by
  rw [callText_replace, callText_replaceEvery, Text.expandTemplate_matched hp,
    Text.replaceOnce_self, Text.replaceEvery_self]
  exact ⟨rfl, rfl⟩

end Stepper.Builtin
