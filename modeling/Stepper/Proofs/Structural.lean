import Stepper.Proofs.Splicing

/-!
The structural output of a program. Where there is one, it is the source with the insertions of the
plan: without their texts it is the source, and if every name of the program is on one line, then
so are they, and no line of the source moves. Each step of the plan is called in the line that its
call says, before the statement and nothing but other insertions between.
-/
namespace Stepper.Text

theorem mem_hexDigits {n k c : Nat} (hc : c ∈ hexDigits n k) : 0x20 ≤ c ∧ c < 0x7f := by
  induction n generalizing k with
  | zero => cases hc
  | succ n ih =>
    rcases List.mem_append.1 hc with hc | hc
    · exact ih hc
    · obtain rfl := List.mem_singleton.1 hc
      unfold Number.digitChar
      split <;> omega

theorem mem_unicodeEscape {k c : Nat} (hc : c ∈ unicodeEscape k) : 0x20 ≤ c ∧ c < 0x7f := by
  rcases List.mem_cons.1 hc with rfl | hc
  · decide
  · rcases List.mem_cons.1 hc with rfl | hc
    · decide
    · exact mem_hexDigits hc

theorem mem_shortEscape {k c : Nat} {t : Text} (ht : shortEscape? k = some t) (hc : c ∈ t) :
    0x20 ≤ c ∧ c < 0x7f := by
  have hshort : ∃ d ∈ [0x22, 0x5c, 0x6e, 0x72, 0x74, 0x62, 0x66], t = [0x5c, d] := by
    unfold shortEscape? at ht
    grind
  obtain ⟨d, hd, rfl⟩ := hshort
  simp only [List.mem_cons, List.not_mem_nil, or_false] at hd hc
  omega

theorem mem_quotePointAscii {k c : Nat} (hc : c ∈ quotePointAscii k) : 0x20 ≤ c ∧ c < 0x7f := by
  unfold quotePointAscii at hc
  split at hc
  · exact mem_shortEscape ‹_› hc
  · split at hc
    · rw [List.mem_singleton.1 hc]
      assumption
    · split at hc
      · exact mem_unicodeEscape hc
      · rcases List.mem_append.1 hc with hc | hc
        · exact mem_unicodeEscape hc
        · exact mem_unicodeEscape hc

/-- Quoted for ASCII, a text is made of printable characters. -/
theorem mem_quoteAscii {t : Text} {c : Nat} (hc : c ∈ quoteAscii t) : 0x20 ≤ c ∧ c < 0x7f := by
  rcases List.mem_append.1 hc with hc | hc
  · rcases List.mem_cons.1 hc with rfl | hc
    · decide
    · obtain ⟨k, -, hc⟩ := List.mem_flatMap.1 hc
      exact mem_quotePointAscii hc
  · rw [List.mem_singleton.1 hc]
    decide

end Stepper.Text

namespace Stepper.Instrument

open Syntax

variable {plan : Plan} {p : Program} {n : Node}

def IsOneLine (s : String) : Prop := '\n' ∉ s.toList

instance (s : String) : Decidable (IsOneLine s) := inferInstanceAs (Decidable (¬ _))

section

variable {s t : String}

theorem isOneLine_append : IsOneLine (s ++ t) ↔ IsOneLine s ∧ IsOneLine t := by
  unfold IsOneLine
  rw [String.toList_append, List.mem_append, not_or]

theorem isOneLine_intercalate {names : List String} (hs : IsOneLine s)
    (h : ∀ x ∈ names, IsOneLine x) : IsOneLine (s.intercalate names) := by
  induction names with
  | nil =>
    rw [String.intercalate_nil]
    decide
  | cons x names ih =>
    obtain ⟨hx, hnames⟩ := List.forall_mem_cons.1 h
    cases names with
    | nil =>
      rw [String.intercalate_singleton]
      exact hx
    | cons y names =>
      rw [String.intercalate_cons_cons, isOneLine_append, isOneLine_append]
      exact ⟨⟨hx, hs⟩, ih hnames⟩

theorem isOneLine_toString (n : Nat) : IsOneLine (toString n) := by
  intro hmem
  have : toString n = String.ofList (Nat.toDigits 10 n) := Nat.repr_eq_ofList_toDigits
  rw [this, String.toList_ofList] at hmem
  exact absurd (Nat.isDigit_of_mem_toDigits (by decide) (by decide) hmem) (by decide)

/-- A quoted text is made of printable characters. -/
theorem isOneLine_quoted (s : String) : IsOneLine (quoted s) := by
  unfold quoted Text.toStr IsOneLine
  rw [String.toList_ofList]
  intro hmem
  obtain ⟨c, hc, hchar⟩ := List.mem_map.1 hmem
  obtain ⟨hlow, hhigh⟩ := Text.mem_quoteAscii hc
  have hplain : (Text.isSurrogate c || c > 0x10FFFF) = false := by
    simp only [Text.isSurrogate, Bool.or_eq_false_iff, Bool.and_eq_false_iff,
      decide_eq_false_iff_not]
    omega
  rw [hplain] at hchar
  have hprintable : ∀ c < 0x7f, 0x20 ≤ c → Char.ofNat c ≠ '\n' := by decide +kernel
  exact hprintable c hhigh hlow hchar

end

theorem isOneLine_stepCall (m : StepMarker) : IsOneLine m.call := by
  unfold StepMarker.call
  simp only [isOneLine_append]
  exact ⟨⟨⟨⟨⟨by decide, by decide⟩, isOneLine_toString _⟩, by decide⟩, isOneLine_toString _⟩,
    by decide⟩

theorem isOneLine_captureCalls {names : List String} (h : ∀ x ∈ names, IsOneLine x) :
    IsOneLine (captureCalls names) := by
  refine isOneLine_intercalate (by decide) fun call hcall => ?_
  obtain ⟨x, hx, rfl⟩ := List.mem_map.1 hcall
  unfold captureCall
  simp only [isOneLine_append]
  exact ⟨⟨⟨⟨⟨by decide, by decide⟩, isOneLine_quoted x⟩, by decide⟩, h x hx⟩, by decide⟩

theorem isOneLine_enterCall {f : FunctionMarker} (h : ∀ x ∈ f.parameters, IsOneLine x) :
    IsOneLine f.enterCall := by
  unfold FunctionMarker.enterCall
  simp only [isOneLine_append]
  exact ⟨⟨⟨⟨⟨by decide, by decide⟩, isOneLine_quoted _⟩, by decide⟩,
    isOneLine_intercalate (by decide) h⟩, by decide⟩

section

variable {parent : Option Node} {depth : Nat} {marks : Marks}

theorem stepInsertions_oneLine (h : marks.Named IsOneLine) (m : StepMarker) :
    ∀ i ∈ stepInsertions parent depth marks m n, IsOneLine i.text := by
  have hcall := isOneLine_stepCall m
  have hafter : IsOneLine
      (if marks.after.isEmpty then "" else "; " ++ captureCalls marks.after) := by
    split
    · decide
    · exact isOneLine_append.2 ⟨by decide, isOneLine_captureCalls h.after⟩
  have hfirst : IsOneLine (if marks.atStart.isEmpty then ""
      else captureCalls marks.atStart ++ " ") := by
    split
    · decide
    · exact isOneLine_append.2 ⟨isOneLine_captureCalls h.atStart, by decide⟩
  unfold stepInsertions opening closing
  simp only
  split
  · simp only [List.forall_mem_cons, isOneLine_append]
    exact ⟨⟨⟨⟨by decide, hfirst⟩, hcall⟩, by decide⟩, ⟨hafter, by decide⟩, List.forall_mem_nil _⟩
  · rw [List.forall_mem_cons]
    refine ⟨isOneLine_append.2 ⟨hcall, by decide⟩, ?_⟩
    split
    · exact List.forall_mem_nil _
    · rename_i hsome
      rw [if_neg hsome] at hafter
      exact List.forall_mem_singleton.2 hafter

theorem bodyInsertions_oneLine {names : List String} (h : ∀ x ∈ names, IsOneLine x) :
    ∀ i ∈ bodyInsertions depth names n, IsOneLine i.text := by
  have hcalls := isOneLine_captureCalls h
  unfold bodyInsertions opening
  simp only
  split
  · rw [List.forall_mem_singleton, isOneLine_append]
    exact ⟨by decide, hcalls⟩
  · rw [List.forall_mem_singleton, isOneLine_append, isOneLine_append]
    exact ⟨⟨by decide, hcalls⟩, by decide⟩

theorem functionInsertions_oneLine {f : FunctionMarker} (h : ∀ x ∈ f.parameters, IsOneLine x) :
    ∀ i ∈ functionInsertions depth f n, IsOneLine i.text := by
  have henter := isOneLine_enterCall h
  unfold functionInsertions opening closing
  split
  · exact List.forall_mem_nil _
  · simp only
    split
    · simp only [List.forall_mem_cons, isOneLine_append]
      exact ⟨⟨by decide, henter⟩, by decide, List.forall_mem_nil _⟩
    · simp only [List.forall_mem_cons, isOneLine_append]
      exact ⟨⟨⟨⟨⟨by decide, henter⟩, by decide⟩, by decide⟩, by decide⟩, by decide, List.forall_mem_nil _⟩

theorem returnInsertions_oneLine : ∀ i ∈ returnInsertions depth n, IsOneLine i.text := by
  unfold returnInsertions opening closing
  simp only
  split
  · split
    · exact List.forall_mem_nil _
    · rw [List.forall_mem_singleton]
      exact (by decide : IsOneLine (" " ++ Hook.exit.name ++ "()"))
  · split
    · simp only [List.forall_mem_cons]
      exact ⟨by decide, by decide, List.forall_mem_nil _⟩
    · simp only [List.forall_mem_cons]
      exact ⟨by decide, by decide, List.forall_mem_nil _⟩

theorem nodeInsertions_oneLine (h : plan.Named IsOneLine) :
    ∀ i ∈ nodeInsertions plan parent depth n, IsOneLine i.text := by
  unfold nodeInsertions
  simp only [List.forall_mem_append]
  refine ⟨⟨?_, ?_⟩, ?_⟩
  · split
    · exact stepInsertions_oneLine (h n) _
    · split
      · exact List.forall_mem_nil _
      · exact bodyInsertions_oneLine (h n).atStart
  · split
    · exact functionInsertions_oneLine ((h n).parameters _ ‹_›)
    · exact List.forall_mem_nil _
  · split
    · exact returnInsertions_oneLine
    · exact List.forall_mem_nil _

end

mutual

theorem forall_mem_collect {Q : Insertion → Prop}
    (h : ∀ parent depth n, ∀ i ∈ nodeInsertions plan parent depth n, Q i) (parent : Option Node)
    (depth : Nat) (n : Node) : ∀ i ∈ collect plan parent depth n, Q i := by
  match n with
  | ⟨_, _, _, _, _, _, _, _, _, _, cs⟩ =>
    unfold collect
    rw [List.forall_mem_append]
    exact ⟨h _ _ _, forall_mem_collectAll h _ _ cs⟩
termination_by structural n

theorem forall_mem_collectAll {Q : Insertion → Prop}
    (h : ∀ parent depth n, ∀ i ∈ nodeInsertions plan parent depth n, Q i) (parent : Node)
    (depth : Nat) (ns : List Node) : ∀ i ∈ collectAll plan parent depth ns, Q i := by
  match ns with
  | [] => nofun
  | n :: ns =>
    unfold collectAll
    rw [List.forall_mem_append]
    exact ⟨forall_mem_collect h _ _ n, forall_mem_collectAll h _ _ ns⟩
termination_by structural ns

end

mutual

theorem mem_collect_of_node (plan : Plan) (parent : Option Node) (depth : Nat) (n : Node)
    {m : Node} (hm : m ∈ n.preorder) :
    ∃ a d, ∀ i ∈ nodeInsertions plan a d m, i ∈ collect plan parent depth n := by
  match n with
  | ⟨_, _, _, _, _, _, _, _, _, _, cs⟩ =>
    unfold collect
    rcases List.mem_cons.1 hm with rfl | hm
    · exact ⟨parent, depth, fun i => List.mem_append_left _⟩
    · obtain ⟨a, d, h⟩ := mem_collectAll_of_node plan _ (depth + 1) cs hm
      exact ⟨a, d, fun i hi => List.mem_append_right _ (h i hi)⟩
termination_by structural n

theorem mem_collectAll_of_node (plan : Plan) (parent : Node) (depth : Nat) (ns : List Node)
    {m : Node} (hm : m ∈ Node.preorders ns) :
    ∃ a d, ∀ i ∈ nodeInsertions plan a d m, i ∈ collectAll plan parent depth ns := by
  match ns with
  | [] => cases hm
  | n :: ns =>
    unfold collectAll
    rcases List.mem_append.1 hm with hm | hm
    · obtain ⟨a, d, h⟩ := mem_collect_of_node plan (some parent) depth n hm
      exact ⟨a, d, fun i hi => List.mem_append_left _ (h i hi)⟩
    · obtain ⟨a, d, h⟩ := mem_collectAll_of_node plan parent depth ns hm
      exact ⟨a, d, fun i hi => List.mem_append_right _ (h i hi)⟩
termination_by structural ns

end

variable {source output : String} {k : Nat}

/-- Where there is an output, no insertion falls into a character. -/
theorem structural_fits (h : structural plan p = .ok output) :
    output = splice p.source 0 (insertions plan p) ∧
      Fits p.source 0 p.source.utf8ByteSize (insertions plan p) := by
  unfold structural at h
  split at h
  · rename_i hall
    have hbetween : ∀ i ∈ insertions plan p, IsBetween p.source i.offset :=
      fun i hi => isBetween_iff.1 (List.all_eq_true.1 hall i hi)
    simp only at h
    split at h
    · cases h
      exact ⟨rfl, insertions_sorted plan p, hbetween, fun _ _ => Nat.zero_le _,
        fun i hi => (hbetween i hi).le⟩
    · cases h
  · cases h

/-- Without the texts of the insertions the output is the source. -/
theorem structural_erased (h : structural plan p = .ok output) :
    splice p.source 0 ((insertions plan p).map fun i => { i with text := "" }) = p.source := by
  rw [splice_erased (structural_fits h).2 (isBetween_zero _), piece_all]

theorem insertions_oneLine (hplan : plan.Named IsOneLine) :
    ∀ i ∈ insertions plan p, IsOneLine i.text := fun i hi =>
  forall_mem_collect (fun _ _ _ => nodeInsertions_oneLine hplan) _ _ _ i (mem_insertions.1 hi)

/-- What comes in the output before a place of the source has as many line ends as in the source;
behind it come the insertions that are behind the place. -/
theorem structural_keeps_lines (h : structural plan p = .ok output) (hplan : plan.Named IsOneLine)
    (hk : IsBetween p.source k) : ∃ is js, insertions plan p = is ++ js ∧
      (∀ i ∈ is, i.offset ≤ k) ∧ (∀ i ∈ js, k < i.offset) ∧
      output = spliceTo p.source 0 k is ++ splice p.source k js ∧
      lineEnds (spliceTo p.source 0 k is).toList = lineEnds (piece p.source 0 k).toList := by
  obtain ⟨rfl, hfits⟩ := structural_fits h
  obtain ⟨is, js, heq, his, hjs⟩ := exists_split hfits.sorted k
  have hline := insertions_oneLine (p := p) hplan
  refine ⟨is, js, heq, his, hjs, ?_, ?_⟩
  · rw [heq] at hfits ⊢
    exact splice_split hfits (isBetween_zero _) hk (Nat.zero_le _) his fun i hi => (hjs i hi).le
  · rw [heq] at hfits hline
    refine lineEnds_spliceTo (hfits.left his) (isBetween_zero _) hk fun i hi => ?_
    exact hline i (List.mem_append_left js hi)

theorem exists_stepInsertion {marks : Marks} (hmarks : marks.Named IsOneLine) (m : StepMarker)
    (parent : Option Node) (depth : Nat) :
    ∃ i ∈ stepInsertions parent depth marks m n, i.offset = n.start ∧
      ∃ first, i.text = first ++ m.call ++ " " ∧ IsOneLine first := by
  unfold stepInsertions
  simp only
  split
  · refine ⟨_, List.mem_cons_self, rfl, _, rfl, isOneLine_append.2 ⟨by decide, ?_⟩⟩
    split
    · decide
    · exact isOneLine_append.2 ⟨isOneLine_captureCalls hmarks.atStart, by decide⟩
  · refine ⟨_, List.mem_cons_self, rfl, "", ?_, by decide⟩
    rw [String.empty_append]
    rfl

/-- The row of a place is the number of line ends before it. -/
theorem pointOf_row_piece (hk : IsBetween source k) :
    (pointOf (lineStarts source) k).row = lineEnds (piece source 0 k).toList := by
  obtain ⟨as, bs, rfl, rfl⟩ := hk
  have hpiece := piece_ofList [] as bs
  simp only [List.nil_append, String.utf8Len_nil, Nat.zero_add] at hpiece
  rw [pointOf_row, hpiece, String.toList_ofList]

/-- Each step of the plan is called in its line, before its statement and with nothing but other
insertions between. -/
theorem structural_calls_steps (hp : parse source = .ok p)
    (h : structural (planOf p) p = .ok output) (hnames : p.root.Named IsOneLine p.source)
    (hn : n ∈ p.root.preorder) {m : StepMarker} (hm : ((planOf p).get n).step = some m) :
    ∃ (front : String) (near later : List Insertion),
      output = front ++ m.call ++ " " ++ String.join (near.map Insertion.text) ++
        splice p.source n.start later ∧
      lineEnds front.toList + 1 = m.line ∧
      (∀ i ∈ near, i.offset = n.start) ∧ (∀ i ∈ later, n.start < i.offset) := by
  have hplaced := (parse_placed hp).2
  have hplan := planOf_named hnames
  obtain ⟨parent, depth, hmem⟩ := mem_collect_of_node (planOf p) none 0 p.root hn
  obtain ⟨i, hi, hoffset, first, htext, hfirst⟩ := exists_stepInsertion (hplan n) m parent depth
  have hi : i ∈ insertions (planOf p) p := by
    refine mem_insertions.2 (hmem i ?_)
    unfold nodeInsertions
    simp only [hm]
    exact List.mem_append_left _ (List.mem_append_left _ hi)
  have hbetween : IsBetween p.source n.start := hoffset ▸ (structural_fits h).2.between i hi
  obtain ⟨is, later, heq, his, hlater, hout, -⟩ := structural_keeps_lines h hplan hbetween
  -- the call is not behind the statement
  have hi : i ∈ is := by
    rw [heq] at hi
    refine (List.mem_append.1 hi).resolve_right fun hi => ?_
    exact absurd (hlater i hi) (by omega)
  obtain ⟨before, near, rfl⟩ := List.append_of_mem hi
  have hfits := (structural_fits h).2
  have hline := insertions_oneLine (p := p) hplan
  rw [heq, List.append_assoc] at hfits hline
  have hnear : ∀ j ∈ near, j.offset = n.start := by
    intro j hj
    have hsorted := (List.pairwise_append.1 hfits.sorted).2.1
    have hafter := (List.pairwise_cons.1 hsorted).1 j (List.mem_append_left _ hj)
    have hbefore := his j (List.mem_append_right _ (List.mem_cons_of_mem _ hj))
    omega
  have hrow : m.line = lineEnds (piece p.source 0 n.start).toList + 1 := by
    obtain ⟨s, hs, rfl⟩ := List.mem_map.1 (sited_nodes [] p.root ▸ hn)
    rw [(planOf_marks hplaced hs).2.1 m hm, Node.startLine, hplaced.points _ hn,
      pointOf_row_piece hbetween]
  have hends : lineEnds (spliceTo p.source 0 n.start before).toList =
      lineEnds (piece p.source 0 n.start).toList := by
    refine lineEnds_spliceTo (hfits.left fun j hj => his j (List.mem_append_left _ hj))
      (isBetween_zero _) hbetween fun j hj => hline j (List.mem_append_left _ hj)
  refine ⟨spliceTo p.source 0 n.start before ++ first, near, later, ?_, ?_, hnear, hlater⟩
  · rw [hout, spliceTo_append, hoffset, spliceTo_self hnear, htext]
    simp only [String.append_assoc]
  · have hnone : lineEnds first.toList = 0 := List.count_eq_zero.2 hfirst
    rw [lineEnds_append, hends, hnone, hrow, Nat.add_zero]

end Stepper.Instrument
