import Mathlib.Data.String.Basic
import Stepper.Syntax.Tree
import Stepper.Syntax.Walk

/-!
Numbers and points of a tree. The nodes of a tree that was read are numbered from zero on in
preorder, each number once, and a node begins in the row that its first byte is in: as many line
ends come before the one as before the other.
-/
namespace Stepper.Syntax

namespace Node

variable {n m : Node} {ns : List Node}

/-- A node comes before all that is below it. -/
theorem preorder_eq (n : Node) : n.preorder = n :: preorders n.children := by cases n; rfl

@[simp] theorem preorders_nil : preorders [] = [] := rfl

@[simp] theorem preorders_cons (n : Node) (ns : List Node) :
    preorders (n :: ns) = n.preorder ++ preorders ns := rfl

mutual

/-- The preorder lists as many nodes as there are. -/
theorem length_preorder (n : Node) : n.preorder.length = n.size := by
  match n with
  | ⟨_, _, _, _, _, _, _, _, _, _, cs⟩ =>
    simp only [preorder, size, List.length_cons, length_preorders cs]
termination_by structural n

theorem length_preorders (ns : List Node) : (preorders ns).length = sizes ns := by
  match ns with
  | [] => rfl
  | n :: ns =>
    simp only [preorders_cons, sizes_cons, List.length_append, length_preorder n,
      length_preorders ns]
termination_by structural ns

end

/-- What trees in a row list is what one of them lists. -/
theorem mem_preorders : m ∈ preorders ns ↔ ∃ n ∈ ns, m ∈ n.preorder := by
  induction ns with
  | nil => simp
  | cons n ns ih => simp [ih]

mutual

/-- What is below a node below is below. -/
theorem preorder_trans {k : Node} (n : Node) (hm : m ∈ n.preorder) (hk : k ∈ m.preorder) :
    k ∈ n.preorder := by
  match n with
  | ⟨_, _, _, _, _, _, _, _, _, _, cs⟩ =>
    rcases List.mem_cons.1 hm with rfl | hm
    · exact hk
    · exact List.mem_cons_of_mem _ (preorders_trans cs hm hk)
termination_by structural n

theorem preorders_trans {k : Node} (ns : List Node) (hm : m ∈ preorders ns)
    (hk : k ∈ m.preorder) : k ∈ preorders ns := by
  match ns with
  | [] => cases hm
  | n :: ns =>
    rcases List.mem_append.1 hm with hm | hm
    · exact List.mem_append_left _ (preorder_trans n hm hk)
    · exact List.mem_append_right _ (preorders_trans ns hm hk)
termination_by structural ns

end

mutual

/-- Nodes are numbered in preorder, by induction on the tree. -/
theorem place_numbers (point : Nat → Point) (n : Node) (k : Nat) :
    (n.place point k).1.preorder.map id = List.range' k n.size ∧
      (n.place point k).2 = k + n.size := by
  match n with
  | ⟨_, _, _, _, _, _, _, _, _, _, cs⟩ =>
    obtain ⟨hids, hnext⟩ := placeAll_numbers point cs (k + 1)
    simp only [place, preorder, size, List.map_cons, List.range'_succ]
    exact ⟨congrArg (k :: ·) hids, by omega⟩
termination_by structural n

theorem placeAll_numbers (point : Nat → Point) (ns : List Node) (k : Nat) :
    (preorders (placeAll point ns k).1).map id = List.range' k (sizes ns) ∧
      (placeAll point ns k).2 = k + sizes ns := by
  match ns with
  | [] => exact ⟨rfl, rfl⟩
  | n :: ns =>
    obtain ⟨hids, hnext⟩ := place_numbers point n k
    obtain ⟨hrest, hlast⟩ := placeAll_numbers point ns (n.place point k).2
    simp only [placeAll, preorders_cons, sizes_cons, List.map_append, hids, hrest]
    refine ⟨?_, by omega⟩
    rw [hnext]
    simp
termination_by structural ns

end

mutual

/-- Each node begins at the point of its offset. -/
theorem place_points (point : Nat → Point) (n : Node) (k : Nat) :
    ∀ m ∈ (n.place point k).1.preorder, m.startPoint = point m.start := by
  match n with
  | ⟨_, _, _, _, _, _, _, _, _, _, cs⟩ =>
    simp only [place, preorder, List.forall_mem_cons, true_and]
    exact placeAll_points point cs (k + 1)
termination_by structural n

theorem placeAll_points (point : Nat → Point) (ns : List Node) (k : Nat) :
    ∀ m ∈ preorders (placeAll point ns k).1, m.startPoint = point m.start := by
  match ns with
  | [] => nofun
  | n :: ns =>
    simp only [placeAll, preorders_cons, List.forall_mem_append]
    exact ⟨place_points point n k, placeAll_points point ns _⟩
termination_by structural ns

end

end Node

/-- How many lines end in a text. -/
def lineEnds (cs : List Char) : Nat := cs.count '\n'

/-- The offsets after the line ends of a text that begins at `pos`. -/
def startsFrom (pos : Nat) : List Char → List Nat
  | [] => []
  | c :: cs =>
    if c = '\n' then (pos + c.utf8Size) :: startsFrom (pos + c.utf8Size) cs
    else startsFrom (pos + c.utf8Size) cs

theorem startsFrom_nil (pos : Nat) : startsFrom pos [] = [] := rfl

/-- A line begins behind each line feed. -/
theorem startsFrom_cons (pos : Nat) (c : Char) (cs : List Char) :
    startsFrom pos (c :: cs) =
      if c = '\n' then (pos + c.utf8Size) :: startsFrom (pos + c.utf8Size) cs
      else startsFrom (pos + c.utf8Size) cs := rfl

theorem lineStarts_eq (source : String) :
    lineStarts source = (0 :: startsFrom 0 source.toList).toArray := by
  let next : Array Nat × Nat → Char → Array Nat × Nat := fun s c =>
    (if c == '\n' then s.1.push (s.2 + c.utf8Size) else s.1, s.2 + c.utf8Size)
  have hfold (cs : List Char) (starts : Array Nat) (pos : Nat) :
      (cs.foldl next (starts, pos)).1 = starts ++ (startsFrom pos cs).toArray := by
    induction cs generalizing starts pos with
    | nil => simp [startsFrom_nil]
    | cons c cs ih =>
      rw [List.foldl_cons, ih, startsFrom_cons]
      by_cases hc : c = '\n'
      · simp [hc]
      · simp [hc]
  change (source.toList.foldl next (#[0], 0)).1 = _
  rw [hfold]
  simp

/-- The lines of a text in two parts. -/
theorem startsFrom_append (pos : Nat) (as bs : List Char) :
    startsFrom pos (as ++ bs) =
      startsFrom pos as ++ startsFrom (pos + String.utf8Len as) bs := by
  induction as generalizing pos with
  | nil => rfl
  | cons a as ih =>
    have hpos : pos + a.utf8Size + String.utf8Len as = pos + String.utf8Len (a :: as) := by
      rw [String.utf8Len_cons]
      omega
    simp only [List.cons_append, startsFrom_cons, ih, hpos]
    split <;> rfl

/-- There are as many line starts as line feeds. -/
theorem length_startsFrom (pos : Nat) (cs : List Char) :
    (startsFrom pos cs).length = lineEnds cs := by
  induction cs generalizing pos with
  | nil => rfl
  | cons c cs ih =>
    unfold lineEnds at ih ⊢
    rw [startsFrom_cons, List.count_cons]
    split
    · simp_all
    · simp_all

/-- A line begins after the text begins and not after the text ends. -/
theorem mem_startsFrom {pos start : Nat} {cs : List Char} (h : start ∈ startsFrom pos cs) :
    pos < start ∧ start ≤ pos + String.utf8Len cs := by
  induction cs generalizing pos with
  | nil => cases h
  | cons c cs ih =>
    have hc := c.utf8Size_pos
    rw [String.utf8Len_cons]
    rw [startsFrom_cons] at h
    split at h
    · rcases List.mem_cons.mp h with rfl | h
      · omega
      · have := ih h
        omega
    · have := ih h
      omega

/-- The search finds the last line that does not begin after the offset. -/
theorem lineOf_eq {starts : Array Nat} {offset row : Nat}
    (hbefore : ∀ i ≤ row, starts.getD i 0 ≤ offset)
    (hafter : ∀ i, row < i → i < starts.size → offset < starts.getD i 0) {fuel lo hi : Nat}
    (hlo : lo ≤ row) (hhi : row < hi) (hsize : hi ≤ starts.size) (hfuel : hi - lo ≤ fuel) :
    lineOf starts offset fuel lo hi = row := by
  induction fuel generalizing lo hi with
  | zero => omega
  | succ fuel ih =>
    rw [lineOf]
    by_cases hwide : lo + 1 < hi
    · rw [if_pos hwide]
      have hlow : lo < (lo + hi) / 2 := by omega
      have hhigh : (lo + hi) / 2 < hi := by omega
      by_cases hmid : starts.getD ((lo + hi) / 2) 0 ≤ offset
      · have hrow : (lo + hi) / 2 ≤ row := by
          by_contra hrow
          have := hafter ((lo + hi) / 2) (by omega) (by omega)
          omega
        rw [if_pos hmid]
        exact ih hrow hhi hsize (by omega)
      · have hrow : row < (lo + hi) / 2 := by
          by_contra hrow
          exact hmid (hbefore _ (by omega))
        rw [if_neg hmid]
        exact ih hlo hrow (by omega) (by omega)
    · rw [if_neg hwide]
      omega

/-- A place between two characters is in the row of as many line ends as come before it. -/
theorem pointOf_row (as bs : List Char) :
    (pointOf (lineStarts (String.ofList (as ++ bs))) (String.utf8Len as)).row = lineEnds as := by
  have hstarts : lineStarts (String.ofList (as ++ bs)) =
      ((0 :: startsFrom 0 as) ++ startsFrom (String.utf8Len as) bs).toArray := by
    rw [lineStarts_eq, String.toList_ofList, startsFrom_append, Nat.zero_add]
    rfl
  have hlength : (0 :: startsFrom 0 as).length = lineEnds as + 1 := by
    rw [List.length_cons, length_startsFrom]
  have hbefore : ∀ start ∈ 0 :: startsFrom 0 as, start ≤ String.utf8Len as := by
    intro start hmem
    rcases List.mem_cons.mp hmem with rfl | hmem
    · exact Nat.zero_le _
    · have := mem_startsFrom hmem
      omega
  rw [hstarts]
  unfold pointOf
  refine lineOf_eq (fun i hi => ?_) (fun i hi hsize => ?_) (Nat.zero_le _) ?_ (Nat.le_refl _) ?_
  · have hi : i < (0 :: startsFrom 0 as).length := by omega
    rw [Array.getD_eq_getD_getElem?, List.getElem?_toArray, List.getElem?_append_left hi,
      List.getElem?_eq_getElem hi]
    exact hbefore _ (List.getElem_mem hi)
  · rw [List.size_toArray, List.length_append] at hsize
    have hi' : i - (0 :: startsFrom 0 as).length < (startsFrom (String.utf8Len as) bs).length := by
      omega
    rw [Array.getD_eq_getD_getElem?, List.getElem?_toArray,
      List.getElem?_append_right (by omega), List.getElem?_eq_getElem hi']
    exact (mem_startsFrom (List.getElem_mem hi')).1
  · rw [List.size_toArray, List.length_append]
    omega
  · omega

/-- A program as it is read: numbered in preorder, with the points of its source. -/
structure Program.IsPlaced (p : Program) : Prop where
  numbers : p.root.preorder.map Node.id = List.range p.root.size
  points : ∀ n ∈ p.root.preorder, n.startPoint = pointOf (lineStarts p.source) n.start

/-- A program that was read is numbered and has its points. -/
theorem parse_placed {source : String} {p : Program} (h : parse source = .ok p) :
    p.source = source ∧ p.IsPlaced := by
  unfold parse at h
  split at h
  · cases h
  · simp only at h
    split at h
    · cases h
      refine ⟨rfl, ?_, Node.place_points _ _ 0⟩
      have hnumbers := fun n => (Node.place_numbers (pointOf (lineStarts source)) n 0).1
      rw [← Node.length_preorder, ← List.length_map Node.id, hnumbers, List.length_range',
        List.range_eq_range']
    · cases h

end Stepper.Syntax
