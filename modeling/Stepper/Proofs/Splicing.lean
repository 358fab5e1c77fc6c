import Mathlib.Data.String.Basic
import Stepper.Instrument.Strategy
import Stepper.Proofs.Naming

/-!
Calls spliced into a program. The insertions stand in the order of their offsets, so where each
falls between two characters the pieces between them make up the source; and where none holds a line
end, all that comes before a place in the output has as many line ends as what comes before it in
the source. So the call of a step stands in the line that it says.
-/
namespace Stepper.Instrument

open Syntax

namespace Insertion

theorem le_offset {a b : Insertion} (h : a.le b = true) : a.offset ≤ b.offset := by
  unfold le at h
  grind

/-- Any two insertions can be ordered. -/
theorem le_total (a b : Insertion) : (a.le b || b.le a) = true := by
  unfold le
  grind

theorem le_trans (a b c : Insertion) (hab : a.le b = true) (hbc : b.le c = true) :
    a.le c = true := by
  unfold le at *
  grind

end Insertion

variable {plan : Plan} {p : Program} {source : String} {i j k : Nat}

/-- The insertions of a plan ascend. -/
theorem insertions_sorted (plan : Plan) (p : Program) :
    (insertions plan p).Pairwise fun a b => a.offset ≤ b.offset :=
  (List.pairwise_mergeSort Insertion.le_trans Insertion.le_total _).imp Insertion.le_offset

theorem mem_insertions {i : Insertion} :
    i ∈ insertions plan p ↔ i ∈ collect plan none 0 p.root :=
  (List.mergeSort_perm _ _).mem_iff

/-- A place in the source that is in no character. -/
def IsBetween (source : String) (i : Nat) : Prop :=
  ∃ as bs, source = String.ofList (as ++ bs) ∧ String.utf8Len as = i

/-- Whether an offset is between characters can be computed. -/
theorem isBetween_iff {i : Insertion} : i.isBetween source = true ↔ IsBetween source i.offset := by
  unfold Insertion.isBetween IsBetween
  rw [String.Pos.Raw.isValid_eq_true_iff, String.Pos.Raw.isValid_iff_exists_append]
  constructor
  · rintro ⟨s, t, rfl, hpos⟩
    refine ⟨s.toList, t.toList, by simp, ?_⟩
    rw [String.utf8Len_toList]
    exact (congrArg String.Pos.Raw.byteIdx hpos).symm
  · rintro ⟨as, bs, rfl, hlen⟩
    refine ⟨String.ofList as, String.ofList bs, by simp, ?_⟩
    rw [String.rawEndPos_ofList, hlen]

theorem isBetween_zero (source : String) : IsBetween source 0 := ⟨[], source.toList, by simp, rfl⟩

theorem isBetween_end (source : String) : IsBetween source source.utf8ByteSize :=
  ⟨source.toList, [], by simp, String.utf8Len_toList _⟩

theorem IsBetween.le (h : IsBetween source i) : i ≤ source.utf8ByteSize := by
  obtain ⟨as, bs, rfl, rfl⟩ := h
  rw [String.utf8ByteSize_ofList, String.utf8Len_append]
  exact Nat.le_add_right _ _

theorem piece_ofList (as bs cs : List Char) :
    piece (String.ofList (as ++ bs ++ cs)) (String.utf8Len as)
      (String.utf8Len as + String.utf8Len bs) = String.ofList bs :=
  String.extract_of_valid as bs cs

theorem append_inj_of_utf8Len {as bs cs ds : List Char} (h : as ++ bs = cs ++ ds)
    (hlen : String.utf8Len as = String.utf8Len cs) : as = cs ∧ bs = ds := by
  have hnil {es fs : List Char} (hes : String.utf8Len es = String.utf8Len (es ++ fs)) :
      fs = [] := by
    rw [String.utf8Len_append] at hes
    rw [← String.utf8Len_eq_zero]
    omega
  rcases List.append_eq_append_iff.1 h with ⟨es, rfl, rfl⟩ | ⟨es, rfl, rfl⟩
  · obtain rfl := hnil hlen
    simp
  · obtain rfl := hnil hlen.symm
    simp

/-- Two places in the source divide it in three. -/
theorem exists_piece (hi : IsBetween source i) (hj : IsBetween source j) (hij : i ≤ j) :
    ∃ as bs cs, source = String.ofList (as ++ bs ++ cs) ∧ String.utf8Len as = i ∧
      String.utf8Len as + String.utf8Len bs = j := by
  obtain ⟨as, ds, hsource, rfl⟩ := hi
  obtain ⟨es, cs, hsource', rfl⟩ := hj
  have heq : as ++ ds = es ++ cs := String.ofList_injective (hsource ▸ hsource')
  rcases List.append_eq_append_iff.1 heq with ⟨bs, rfl, rfl⟩ | ⟨bs, rfl, rfl⟩
  · exact ⟨as, bs, cs, hsource', rfl, (String.utf8Len_append as bs).symm⟩
  · rw [String.utf8Len_append] at hij
    have hbs : bs = [] := String.utf8Len_eq_zero.1 (by omega)
    subst hbs
    exact ⟨es, [], _, by simpa using hsource', by simp, by simp⟩

/-- Pieces that meet are one piece. -/
theorem piece_append (hi : IsBetween source i) (hj : IsBetween source j)
    (hk : IsBetween source k) (hij : i ≤ j) (hjk : j ≤ k) :
    piece source i j ++ piece source j k = piece source i k := by
  obtain ⟨as, bs, cs, hsource, rfl, rfl⟩ := exists_piece hi hj hij
  obtain ⟨es, fs, gs, hsource', hes, rfl⟩ := exists_piece hj hk hjk
  obtain ⟨rfl, rfl⟩ : as ++ bs = es ∧ cs = fs ++ gs := by
    refine append_inj_of_utf8Len ?_ ?_
    · rw [← List.append_assoc]
      exact String.ofList_injective (hsource ▸ hsource')
    · rw [String.utf8Len_append, hes]
  have hleft := piece_ofList as bs (fs ++ gs)
  have hright := piece_ofList (as ++ bs) fs gs
  have hboth := piece_ofList as (bs ++ fs) gs
  simp only [List.append_assoc, String.utf8Len_append, ← Nat.add_assoc] at *
  rw [hsource, hleft, hright, hboth, String.ofList_append]

theorem piece_self (source : String) (i : Nat) : piece source i i = "" := by
  unfold piece String.Pos.Raw.extract
  exact if_pos (Nat.le_refl _)

/-- All of a source is one piece. -/
theorem piece_all (source : String) : piece source 0 source.utf8ByteSize = source :=
  String.extract_zero_rawEndPos source

/-- The source from `cursor` to `stop` with ordered insertions in place. -/
def spliceTo (source : String) (cursor stop : Nat) : List Insertion → String
  | [] => piece source cursor stop
  | i :: is => piece source cursor i.offset ++ i.text ++ spliceTo source i.offset stop is

/-- A splice may be cut at one of its insertions. -/
theorem spliceTo_append (cursor stop : Nat) (is : List Insertion) (i : Insertion)
    (js : List Insertion) : spliceTo source cursor stop (is ++ i :: js) =
      spliceTo source cursor i.offset is ++ i.text ++ spliceTo source i.offset stop js := by
  induction is generalizing cursor with
  | nil => rfl
  | cons k is ih => simp only [List.cons_append, spliceTo, ih, String.append_assoc]

/-- Insertions at one place have nothing of the source between them. -/
theorem spliceTo_self {is : List Insertion} (h : ∀ i ∈ is, i.offset = k) :
    spliceTo source k k is = String.join (is.map Insertion.text) := by
  induction is with
  | nil => exact piece_self source k
  | cons i is ih =>
    obtain ⟨rfl, his⟩ := List.forall_mem_cons.1 h
    rw [spliceTo, ih his, piece_self, String.empty_append, List.map_cons, String.join_cons]

/-- Ordered insertions between characters, none of them before `cursor` or behind `stop`. -/
structure Fits (source : String) (cursor stop : Nat) (is : List Insertion) : Prop where
  sorted : is.Pairwise fun a b => a.offset ≤ b.offset
  between : ∀ i ∈ is, IsBetween source i.offset
  lower : ∀ i ∈ is, cursor ≤ i.offset
  upper : ∀ i ∈ is, i.offset ≤ stop

theorem Fits.tail {cursor stop : Nat} {i : Insertion} {is : List Insertion}
    (h : Fits source cursor stop (i :: is)) : Fits source i.offset stop is := by
  obtain ⟨hsorted, hbetween, hlower, hupper⟩ := h
  exact ⟨(List.pairwise_cons.1 hsorted).2, (List.forall_mem_cons.1 hbetween).2,
    (List.pairwise_cons.1 hsorted).1, (List.forall_mem_cons.1 hupper).2⟩

/-- Insertions that ascend are cut at any offset. -/
theorem exists_split {is : List Insertion} (h : is.Pairwise fun a b => a.offset ≤ b.offset)
    (k : Nat) : ∃ js ks, is = js ++ ks ∧ (∀ i ∈ js, i.offset ≤ k) ∧ ∀ i ∈ ks, k < i.offset := by
  induction is with
  | nil => exact ⟨[], [], rfl, nofun, nofun⟩
  | cons i is ih =>
    obtain ⟨hi, his⟩ := List.pairwise_cons.1 h
    by_cases hk : i.offset ≤ k
    · obtain ⟨js, ks, rfl, hjs, hks⟩ := ih his
      exact ⟨i :: js, ks, rfl, List.forall_mem_cons.2 ⟨hk, hjs⟩, hks⟩
    · refine ⟨[], i :: is, rfl, nofun, List.forall_mem_cons.2 ⟨by omega, fun j hj => ?_⟩⟩
      have := hi j hj
      omega

/-- A place divides the output as it divides the insertions. -/
theorem splice_split {cursor : Nat} {is js : List Insertion}
    (h : Fits source cursor source.utf8ByteSize (is ++ js)) (hcursor : IsBetween source cursor)
    (hk : IsBetween source k) (hle : cursor ≤ k) (his : ∀ i ∈ is, i.offset ≤ k)
    (hjs : ∀ i ∈ js, k ≤ i.offset) :
    splice source cursor (is ++ js) = spliceTo source cursor k is ++ splice source k js := by
  induction is generalizing cursor with
  | nil =>
    cases js with
    | nil => exact (piece_append hcursor hk (isBetween_end source) hle hk.le).symm
    | cons j js =>
      have hj := h.between j List.mem_cons_self
      simp only [List.nil_append, splice, spliceTo]
      rw [← piece_append hcursor hk hj hle (hjs j List.mem_cons_self)]
      simp only [String.append_assoc]
  | cons i is ih =>
    have hi := h.between i List.mem_cons_self
    rw [List.forall_mem_cons] at his
    simp only [List.cons_append, splice, spliceTo, String.append_assoc]
    rw [ih h.tail hi his.1 his.2]

/-- The insertions in front of an offset fit in front of it. -/
theorem Fits.left {cursor stop : Nat} {is js : List Insertion}
    (h : Fits source cursor stop (is ++ js)) (his : ∀ i ∈ is, i.offset ≤ k) :
    Fits source cursor k is := by
  obtain ⟨hsorted, hbetween, hlower, -⟩ := h
  exact ⟨(List.pairwise_append.1 hsorted).1, (List.forall_mem_append.1 hbetween).1,
    (List.forall_mem_append.1 hlower).1, his⟩

/-- Without the texts it is the source. -/
theorem splice_erased {cursor : Nat} {is : List Insertion}
    (h : Fits source cursor source.utf8ByteSize is) (hcursor : IsBetween source cursor) :
    splice source cursor (is.map fun i => { i with text := "" }) =
      piece source cursor source.utf8ByteSize := by
  induction is generalizing cursor with
  | nil => rfl
  | cons i is ih =>
    have hi := h.between i List.mem_cons_self
    rw [List.map_cons, splice, ih h.tail hi, String.append_empty]
    exact piece_append hcursor hi (isBetween_end source) (h.lower i List.mem_cons_self)
      (h.upper i List.mem_cons_self)

/-- The line ends of two texts add up. -/
theorem lineEnds_append (s t : String) :
    lineEnds (s ++ t).toList = lineEnds s.toList + lineEnds t.toList := by
  unfold lineEnds
  rw [String.toList_append, List.count_append]

/-- Up to a place there are as many line ends with the insertions as without them. -/
theorem lineEnds_spliceTo {cursor stop : Nat} {is : List Insertion}
    (h : Fits source cursor stop is) (hcursor : IsBetween source cursor)
    (hstop : IsBetween source stop) (hline : ∀ i ∈ is, '\n' ∉ i.text.toList) :
    lineEnds (spliceTo source cursor stop is).toList =
      lineEnds (piece source cursor stop).toList := by
  induction is generalizing cursor with
  | nil => rfl
  | cons i is ih =>
    obtain ⟨hi, his⟩ := List.forall_mem_cons.1 hline
    have hbetween := h.between i List.mem_cons_self
    have htext : lineEnds i.text.toList = 0 := List.count_eq_zero.2 hi
    rw [spliceTo, lineEnds_append, lineEnds_append, htext, ih h.tail hbetween his,
      ← piece_append hcursor hbetween hstop (h.lower i List.mem_cons_self)
        (h.upper i List.mem_cons_self), lineEnds_append, Nat.add_zero]

end Stepper.Instrument
