import Mathlib.Data.List.Basic
import Stepper.Proofs.Deciding
import Stepper.Syntax.Diagnosis

/-!
The check of trees that may hold faults. A tree in which exactly the nodes are marked that are
faults or have a marked child has a mark at its root if and only if there is a fault in it. So the
walk of the check is made only where it finds something, and as it goes in preorder it is the first
fault that it finds. What is said of an error is the text of the leaf that is reached by going down
from first child to first child; where that leaf cuts a character of the source it has no text, and
the check fails.
-/
namespace Stepper.Syntax

/-- What is left of some characters when the blanks at both ends are taken away. -/
structure Strips (cs inner : List Char) : Prop where
  around : ∃ before after, cs = before ++ inner ++ after ∧
    (∀ c ∈ before, Text.isBlank c.toNat = true) ∧ ∀ c ∈ after, Text.isBlank c.toNat = true
  head : ∀ c ∈ inner.head?, Text.isBlank c.toNat = false
  last : ∀ c ∈ inner.getLast?, Text.isBlank c.toNat = false

theorem dropWhile_of_head {α : Type} {p : α → Bool} {bs : List α}
    (h : ∀ b ∈ bs.head?, p b = false) : bs.dropWhile p = bs := by
  cases bs with
  | nil => rfl
  | cons b bs => exact List.dropWhile_cons_of_neg (by simp [h b rfl])

theorem dropWhile_append_of_head {α : Type} {p : α → Bool} {as bs : List α}
    (has : ∀ a ∈ as, p a = true) (hbs : ∀ b ∈ bs.head?, p b = false) :
    (as ++ bs).dropWhile p = bs := by
  rw [List.dropWhile_append_of_pos has, dropWhile_of_head hbs]

theorem Strips.stripBy {cs inner : List Char} (h : Strips cs inner) :
    Text.stripBy Text.isBlank (cs.map Char.toNat) = inner.map Char.toNat := by
  obtain ⟨⟨before, after, rfl, hbefore, hafter⟩, hhead, hlast⟩ := h
  have hfront : ((before ++ (inner ++ after)).map Char.toNat).dropWhile Text.isBlank =
      ((inner ++ after).map Char.toNat).dropWhile Text.isBlank := by
    rw [List.map_append]
    exact List.dropWhile_append_of_pos (by simpa using hbefore)
  unfold Text.stripBy
  rw [List.append_assoc, hfront]
  rcases List.eq_nil_or_concat' inner with rfl | ⟨front, c, rfl⟩
  · have hnone : (([] ++ after).map Char.toNat).dropWhile Text.isBlank = [] :=
      List.dropWhile_eq_nil_iff.mpr (by simpa using hafter)
    rw [hnone]
    rfl
  · have hkept : ((front ++ [c] ++ after).map Char.toNat).dropWhile Text.isBlank =
        (front ++ [c] ++ after).map Char.toNat := by
      refine dropWhile_of_head fun b hb => ?_
      cases front with
      | nil =>
        cases hb
        exact hhead c rfl
      | cons d front =>
        cases hb
        exact hhead d rfl
    rw [hkept, List.map_append, List.reverse_append, dropWhile_append_of_head, List.reverse_reverse]
    · simpa using hafter
    · simpa using hlast

theorem exists_strips (cs : List Char) : ∃ inner, Strips cs inner := by
  let blank : Char → Bool := fun c => Text.isBlank c.toNat
  let rest := cs.dropWhile blank
  have hcs : cs = cs.takeWhile blank ++ rest := List.takeWhile_append_dropWhile.symm
  have hrest : rest = rest.rdropWhile blank ++ rest.rtakeWhile blank :=
    (List.rdropWhile_append_rtakeWhile).symm
  refine ⟨rest.rdropWhile blank, ⟨cs.takeWhile blank, rest.rtakeWhile blank, ?_,
    fun c hc => ?_, fun c hc => ?_⟩, fun c hc => ?_, fun c hc => ?_⟩
  · rw [List.append_assoc, ← hrest, ← hcs]
  · exact List.mem_takeWhile_imp (p := blank) hc
  · exact List.mem_rtakeWhile_imp (p := blank) hc
  · -- what is left begins where the text begins that has lost its first blanks
    have hhead : rest.head? = some c := by
      rw [hrest, List.head?_append, hc]
      rfl
    have hnot := List.head?_dropWhile_not blank cs
    rw [hhead] at hnot
    exact hnot
  · obtain ⟨hne, rfl⟩ := List.mem_getLast?_eq_getLast hc
    simpa using List.rdropWhile_last_not blank rest hne

/-- There is only one text between the blanks. -/
theorem Strips.unique {cs inner inner' : List Char} (h : Strips cs inner) (h' : Strips cs inner') :
    inner = inner' :=
  List.map_injective_iff.mpr (fun _ _ => Char.toNat_inj.mp) (h.stripBy.symm.trans h'.stripBy)

theorem toStr_map_toNat (cs : List Char) : Text.toStr (cs.map Char.toNat) = String.ofList cs := by
  have hchar (c : Char) : (if Text.isSurrogate c.toNat || c.toNat > 0x10FFFF
      then Char.ofNat 0xFFFD else Char.ofNat c.toNat) = c := by
    have hvalid : c.toNat < 0xD800 ∨ 0xDFFF < c.toNat ∧ c.toNat < 0x110000 := c.valid
    rw [if_neg, Char.ofNat_toNat]
    simp only [Text.isSurrogate, Bool.or_eq_true, Bool.and_eq_true, decide_eq_true_eq]
    omega
  rw [Text.toStr, List.map_map]
  congr 1
  exact (List.map_congr_left fun c _ => hchar c).trans (List.map_id cs)

namespace Node

variable {source : String} {root n m leaf : Node} {ns : List Node}

/-- The node that is reached from first child to first child. -/
inductive LeftmostLeaf : Node → Node → Prop
  | here {n : Node} (hn : n.children = []) : LeftmostLeaf n n
  | down {n c leaf : Node} {cs : List Node} (hn : n.children = c :: cs)
    (hc : LeftmostLeaf c leaf) : LeftmostLeaf n leaf

theorem firstLeaf_eq (n : Node) : n.firstLeaf = firstLeafOf n n.children := by
  cases n
  rfl

mutual

theorem leftmostLeaf_firstLeaf (n : Node) : n.LeftmostLeaf n.firstLeaf := by
  match n with
  | ⟨a, b, c, d, e, f, g, h, i, j, cs⟩ => exact leftmostLeaf_firstLeafOf _ cs rfl
termination_by structural n

theorem leftmostLeaf_firstLeafOf (n : Node) (cs : List Node) (hn : n.children = cs) :
    n.LeftmostLeaf (firstLeafOf n cs) := by
  match cs with
  | [] => exact .here hn
  | c :: cs => exact .down hn (leftmostLeaf_firstLeaf c)
termination_by structural cs

end

theorem LeftmostLeaf.eq_firstLeaf (h : n.LeftmostLeaf leaf) : leaf = n.firstLeaf := by
  induction h with
  | here hn =>
    rw [firstLeaf_eq, hn]
    rfl
  | @down n c leaf cs hn hc ih =>
    rw [ih, firstLeaf_eq n, hn]
    rfl

/-- The bytes of a node are those of a text. -/
def Covers (source : String) (n : Node) (t : String) : Prop :=
  source.toUTF8.extract n.start n.stop = t.toUTF8

theorem text?_eq_some_iff {t : String} : n.text? source = some t ↔ n.Covers source t := by
  unfold text? String.fromUTF8? Covers
  constructor
  · intro h
    split at h
    · cases h
      rfl
    · cases h
  · intro h
    rw [dif_pos (h ▸ t.isValidUTF8)]
    exact congrArg some (String.toByteArray_inj.mp h)

/-- A node that begins and ends between characters of the source. -/
structure Whole (source : String) (n : Node) : Prop where
  start : (⟨n.start⟩ : String.Pos.Raw).IsValid source
  stop : (⟨n.stop⟩ : String.Pos.Raw).IsValid source

/-- Such a node has a text. -/
theorem Whole.exists_covers (h : n.Whole source) : ∃ t, n.Covers source t :=
  ⟨_, (String.toByteArray_extract (b := ⟨_, h.start⟩) (e := ⟨_, h.stop⟩)).symm⟩

theorem LeftmostLeaf.mem_preorder (h : n.LeftmostLeaf leaf) : leaf ∈ n.preorder := by
  induction h with
  | here hn =>
    rw [preorder_eq]
    exact List.mem_cons_self
  | @down n c leaf cs hn hc ih =>
    rw [preorder_eq, hn]
    exact List.mem_cons_of_mem n (mem_preorders.mpr ⟨c, List.mem_cons_self, ih⟩)

/-- Exactly the nodes are marked that are faults or have a marked child. -/
def Marked (n : Node) : Prop :=
  ∀ m ∈ n.preorder, m.hasError = true ↔ m.isFault = true ∨ ∃ c ∈ m.children, c.hasError = true

theorem Marked.below (hn : Marked n) (hm : m ∈ n.preorder) : Marked m :=
  fun k hk => hn k (preorder_trans n hm hk)

theorem marked_children (hn : Marked n) : ∀ c ∈ n.children, Marked c := by
  intro c hc
  refine hn.below ?_
  rw [preorder_eq]
  refine List.mem_cons_of_mem n (mem_preorders.mpr ⟨c, hc, ?_⟩)
  rw [preorder_eq]
  exact List.mem_cons_self

theorem exists_fault_iff : (∃ m ∈ n.preorder, m.isFault = true) ↔
    n.isFault = true ∨ ∃ c ∈ n.children, ∃ m ∈ c.preorder, m.isFault = true := by
  rw [preorder_eq]
  simp only [List.exists_mem_cons_iff, mem_preorders]
  grind

mutual

/-- A mark stands at the root exactly of the trees with a fault. -/
theorem hasError_iff_of_marked (n : Node) (hn : Marked n) :
    n.hasError = true ↔ ∃ m ∈ n.preorder, m.isFault = true := by
  match n with
  | ⟨a, b, c, d, e, f, g, h, i, j, cs⟩ =>
    have hself := hn _ (by rw [preorder_eq]; exact List.mem_cons_self)
    rw [exists_fault_iff, hself]
    exact or_congr_right (exists_hasError_iff_of_marked cs (marked_children hn))
termination_by structural n

theorem exists_hasError_iff_of_marked (ns : List Node) (hns : ∀ n ∈ ns, Marked n) :
    (∃ n ∈ ns, n.hasError = true) ↔ ∃ n ∈ ns, ∃ m ∈ n.preorder, m.isFault = true := by
  match ns with
  | [] => simp
  | n :: ns =>
    rw [List.exists_mem_cons_iff, List.exists_mem_cons_iff,
      hasError_iff_of_marked n (hns n List.mem_cons_self),
      exists_hasError_iff_of_marked ns fun m hm => hns m (List.mem_cons_of_mem n hm)]
termination_by structural ns

end

/-- The first fault of a tree in preorder. -/
def FirstFault (root n : Node) : Prop :=
  ∃ before after, root.preorder = before ++ n :: after ∧ n.isFault = true ∧
    ∀ m ∈ before, m.isFault = false

theorem find?_isFault (root : Node) :
    (root.walk.find? isFault = none ↔ ∀ m ∈ root.preorder, m.isFault = false) ∧
      ∀ n, root.walk.find? isFault = some n ↔ root.FirstFault n := by
  rw [walk_eq]
  refine ⟨by simp, fun n => ?_⟩
  rw [List.find?_eq_some_iff_append]
  constructor
  · rintro ⟨hn, before, after, heq, hbefore⟩
    exact ⟨before, after, heq, hn, by simpa using hbefore⟩
  · rintro ⟨before, after, heq, hn, hbefore⟩
    exact ⟨hn, before, after, heq, by simpa using hbefore⟩

theorem check_of_none (hroot : root.Marked) (h : ∀ m ∈ root.preorder, m.isFault = false) :
    root.check source = .ok (.ok ()) := by
  have hmark : root.hasError = false := by
    rw [← Bool.not_eq_true, hasError_iff_of_marked root hroot]
    rintro ⟨m, hm, hfault⟩
    rw [h m hm] at hfault
    cases hfault
  rw [check, hmark]
  rfl

theorem FirstFault.check (h : root.FirstFault n) (hroot : root.Marked) :
    root.check source =
      (n.blame source).map fun what => .error ⟨what, n.startLine, n.startPoint.column⟩ := by
  have hfind := ((find?_isFault root).2 n).mpr h
  obtain ⟨before, after, heq, hn, -⟩ := h
  have hmark : root.hasError = true :=
    (hasError_iff_of_marked root hroot).mpr ⟨n, by simp [heq], hn⟩
  rw [Node.check, hmark, hfind]
  rfl

/-- A tree with a fault does not pass. -/
theorem FirstFault.check_ne_ok (h : root.FirstFault n) (hroot : root.Marked) :
    root.check source ≠ .ok (.ok ()) := by
  rw [h.check hroot]
  cases n.blame source <;> nofun

theorem blame_of_missing (h : n.missing = true) : n.blame source = .ok (.missing n.kind.name) :=
  if_pos h

theorem blame_of_error (h : n.missing = false) : n.blame source = n.complaint source :=
  if_neg (by simp [h])

theorem complaint_of_covers {t : String} (h : n.firstLeaf.Covers source t) {inner : List Char}
    (hinner : Strips t.toList inner) : ∃ what, n.complaint source = .ok what ∧
      what.message = if inner = [] then "Unexpected end of input"
        else "Unexpected token '" ++ String.ofList (inner.take 20) ++ "'" := by
  have hstrip : Text.stripBy Text.isBlank (Text.ofString t) = inner.map Char.toNat := hinner.stripBy
  rw [complaint, text?_eq_some_iff.mpr h]
  dsimp only
  rw [hstrip, List.isEmpty_map]
  refine ⟨_, rfl, ?_⟩
  cases inner with
  | nil => rfl
  | cons c inner =>
    rw [← List.map_take]
    dsimp only [List.isEmpty_cons, FaultKind.message]
    rw [if_neg Bool.false_ne_true, if_neg (List.cons_ne_nil c inner)]
    simp only [toStr_map_toNat]
    rfl

/-- The check reports something at a node: in its first line, counted from one, and at its first
column, counted from zero. -/
def ReportsAt (source : String) (root n : Node) (message : String) : Prop :=
  ∃ f : SyntaxFault, root.check source = .ok (.error f) ∧
    f.line = n.startPoint.row + 1 ∧ f.column = n.startPoint.column ∧ f.what.message = message

/-- The check of a tree with consistent marks passes exactly if there is no fault in it; otherwise
it reports the first one in preorder. A missing node counts as missing, whatever its kind, and is
named by its kind. Of an error the first leaf is named: the first twenty characters of its text
between blanks, or the end of the input where only blanks are there. -/
theorem first_fault_is_reported {source : String} {root : Node} (hroot : root.Marked)
    (hwhole : ∀ m ∈ root.preorder, m.Whole source) :
    (root.check source = .ok (.ok ()) ↔
      ∀ m ∈ root.preorder, ¬ (m.missing = true ∨ m.kind = .error)) ∧
    (root.check source ≠ .ok (.ok ()) → ∃ n, root.FirstFault n) ∧
    ∀ n, root.FirstFault n →
      (n.missing = true → root.ReportsAt source n ("Expected '" ++ n.kind.name ++ "'")) ∧
      (n.missing = false → ∃ leaf t inner, n.LeftmostLeaf leaf ∧ leaf.Covers source t ∧
        Strips t.toList inner ∧
        root.ReportsAt source n (if inner = [] then "Unexpected end of input"
          else "Unexpected token '" ++ String.ofList (inner.take 20) ++ "'")) := by
  have hpasses : root.check source = .ok (.ok ()) ↔ ∀ m ∈ root.preorder, m.isFault = false := by
    refine ⟨fun h => ?_, check_of_none hroot⟩
    rw [← (find?_isFault root).1, Option.eq_none_iff_forall_ne_some]
    exact fun n hn => FirstFault.check_ne_ok (((find?_isFault root).2 n).mp hn) hroot h
  refine ⟨?_, fun h => ?_, fun n hn => ⟨fun hmissing => ?_, fun hmissing => ?_⟩⟩
  · rw [hpasses]
    simp only [isFault, Bool.or_eq_false_iff, beq_eq_false_iff_ne, not_or, Bool.not_eq_true, ne_eq]
  · rw [ne_eq, hpasses, ← (find?_isFault root).1] at h
    obtain ⟨n, hn⟩ := Option.ne_none_iff_exists'.mp h
    exact ⟨n, ((find?_isFault root).2 n).mp hn⟩
  · have hcheck : root.check source = _ := hn.check hroot
    rw [blame_of_missing hmissing] at hcheck
    exact ⟨_, hcheck, rfl, rfl, rfl⟩
  · have hcheck : root.check source = _ := hn.check hroot
    rw [blame_of_error hmissing] at hcheck
    have hleaf := leftmostLeaf_firstLeaf n
    obtain ⟨before, after, hall, -⟩ := hn
    -- the leaf lies below the fault, so it is a node of the tree
    have hin : n.firstLeaf ∈ root.preorder :=
      preorder_trans root (hall ▸ List.mem_append_right before List.mem_cons_self)
        hleaf.mem_preorder
    obtain ⟨t, ht⟩ := (hwhole n.firstLeaf hin).exists_covers
    obtain ⟨inner, hinner⟩ := exists_strips t.toList
    obtain ⟨what, hwhat, hmessage⟩ := complaint_of_covers ht hinner
    rw [hwhat] at hcheck
    exact ⟨n.firstLeaf, t, inner, hleaf, ht, hinner, _, hcheck, rfl, rfl, hmessage⟩

/-! An error over blanks and two letters, and behind it a missing mark. -/

def faultySource : String := "a\n  bc"

def blankLeaf : Node := { kind := .identifier, start := 2, stop := 6, startPoint := ⟨1, 0⟩ }

def faultyNode : Node :=
  { kind := .error, hasError := true, start := 2, stop := 6, startPoint := ⟨1, 0⟩,
    children := [blankLeaf] }

def missingMark : Node := { kind := .token ";", missing := true, hasError := true }

def faultyTree : Node :=
  { kind := .program, hasError := true, children := [faultyNode, missingMark] }

theorem faultyTree_is_reported : faultyTree.Marked ∧
    (∀ m ∈ faultyTree.preorder, m.Whole faultySource) ∧ faultyTree.FirstFault faultyNode ∧
    faultyTree.ReportsAt faultySource faultyNode "Unexpected token 'bc'" := by
  have hall : faultyTree.preorder = [faultyTree, faultyNode, blankLeaf, missingMark] := rfl
  have hmarked : faultyTree.Marked := by
    rw [Marked, hall]
    simp [faultyTree, faultyNode, blankLeaf, missingMark, isFault]
  have hvalid : (⟨0⟩ : String.Pos.Raw).IsValid faultySource ∧
      (⟨2⟩ : String.Pos.Raw).IsValid faultySource ∧ (⟨6⟩ : String.Pos.Raw).IsValid faultySource := by
    simp only [String.Pos.Raw.isValid_iff_exists_append]
    exact ⟨⟨"", faultySource, rfl, rfl⟩, ⟨"a\n", "  bc", rfl, rfl⟩, ⟨faultySource, "", rfl, rfl⟩⟩
  have hwhole : ∀ m ∈ faultyTree.preorder, m.Whole faultySource := by
    simp only [hall, List.forall_mem_cons]
    exact ⟨⟨hvalid.1, hvalid.1⟩, ⟨hvalid.2.1, hvalid.2.2⟩, ⟨hvalid.2.1, hvalid.2.2⟩,
      ⟨hvalid.1, hvalid.1⟩, List.forall_mem_nil _⟩
  have hfirst : faultyTree.FirstFault faultyNode :=
    ⟨[faultyTree], [blankLeaf, missingMark], rfl, rfl, by simp [faultyTree, isFault]⟩
  refine ⟨hmarked, hwhole, hfirst, ?_⟩
  obtain ⟨-, -, hreports⟩ := first_fault_is_reported hmarked hwhole
  obtain ⟨leaf, t, inner, hleaf, htext, hinner, h⟩ := (hreports faultyNode hfirst).2 rfl
  obtain rfl : leaf = blankLeaf := hleaf.eq_firstLeaf
  have ht : blankLeaf.Covers faultySource "  bc" := by
    unfold Covers
    decide
  obtain rfl : t = "  bc" := String.toByteArray_inj.mp (htext.symm.trans ht)
  have hbc : Strips "  bc".toList ['b', 'c'] :=
    ⟨⟨[' ', ' '], [], rfl, by simp [Text.isBlank, Text.isWhiteSpace], List.forall_mem_nil _⟩,
      by simp [Text.isBlank, Text.isWhiteSpace], by simp [Text.isBlank, Text.isWhiteSpace]⟩
  rw [hinner.unique hbc] at h
  exact h

end Node

theorem hasError_place (point : Nat → Point) (n : Node) (k : Nat) :
    (n.place point k).1.hasError = n.hasError := by
  cases n
  rfl

/-- The tree of a source that can be read has no mark at its root. -/
theorem hasError_of_parse {source : String} {p : Program} (h : parse source = .ok p) :
    p.root.hasError = false := by
  unfold parse at h
  split at h
  · cases h
  · dsimp only at h
    split at h
    · cases h
      exact hasError_place _ _ 0
    · cases h

theorem brokenTree_ne_ok (source : String) (offset : Nat) :
    (brokenTree source offset).check source ≠ .ok (.ok ()) := by
  have hall : (brokenTree source offset).preorder =
      brokenTree source offset :: (brokenTree source offset).children := rfl
  refine Node.FirstFault.check_ne_ok ⟨[brokenTree source offset], [], rfl, rfl, ?_⟩ ?_
  · simp [brokenTree, Node.isFault]
  · rw [Node.Marked, hall]
    simp [brokenTree, Place.leaf, Node.isFault]

/-- Reading gives the programs of the grammar and no others: the tree of any other source has a
fault, and the check of it fails. -/
theorem read_eq_ok_iff {source : String} {p : Program} :
    read source = .ok p ↔ parse source = .ok p := by
  unfold read treeOf
  cases hparse : parse source with
  | ok q =>
    have hpass : q.root.check source = .ok (.ok ()) := by
      rw [Node.check, hasError_of_parse hparse]
      rfl
    dsimp only
    rw [hpass]
    simp
  | error offset =>
    have hfault := brokenTree_ne_ok source offset
    dsimp only
    split <;> simp_all

end Stepper.Syntax
