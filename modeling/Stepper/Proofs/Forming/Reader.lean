import Stepper.Proofs.Placing

/-!
Formed trees. In a tree that is read, what is not named is a token, and what stands as an operator
is not named. Readers make such trees if they are given such trees: nodes are put over children,
made parts of a parent and read anew as targets, and a cursor holds the comments that were passed.
-/
namespace Stepper.Syntax

variable {α β γ : Type}

/-- A node that is named unless it is a token, and unnamed if it is an operator. -/
structure Node.Fits (n : Node) : Prop where
  token : n.named = false → ∃ t, n.kind = .token t
  operator : n.field = some .operator → n.named = false

/-! ### Data that holds trees -/

/-- Data in which there may be trees. -/
class Bears (α : Type) where
  trees : α → List Node

export Bears (trees)

/-- All nodes of all trees in it fit. -/
def Formed [Bears α] (a : α) : Prop := ∀ n ∈ trees a, ∀ m ∈ n.preorder, m.Fits

/-- Data without trees is formed. -/
theorem formed_of_trees [Bears α] {a : α} (h : trees a = []) : Formed a := by
  intro n hn
  rw [h] at hn
  cases hn

/-- Data in which there is no tree. -/
class Bears.Plain (α : Type) [Bears α] : Prop where
  trees_eq : ∀ a : α, trees a = []

@[grind ←] theorem formed_plain [Bears α] [Bears.Plain α] (a : α) : Formed a :=
  formed_of_trees (Bears.Plain.trees_eq a)

@[reducible] def Bears.plain : Bears α := ⟨fun _ => []⟩

instance : Bears Unit := .plain
instance : Bears.Plain Unit := ⟨fun _ => rfl⟩
instance : Bears Bool := .plain
instance : Bears.Plain Bool := ⟨fun _ => rfl⟩
instance : Bears Nat := .plain
instance : Bears.Plain Nat := ⟨fun _ => rfl⟩
instance : Bears Kind := .plain
instance : Bears.Plain Kind := ⟨fun _ => rfl⟩
instance : Bears Place := .plain
instance : Bears.Plain Place := ⟨fun _ => rfl⟩
instance : Bears Token := .plain
instance : Bears.Plain Token := ⟨fun _ => rfl⟩

instance : Bears Node := ⟨fun n => [n]⟩
instance [Bears α] : Bears (Option α) := ⟨fun o => o.elim [] trees⟩
instance [Bears α] [Bears.Plain α] : Bears.Plain (Option α) :=
  ⟨fun o => by cases o with | none => rfl | some a => exact Bears.Plain.trees_eq a⟩
instance [Bears α] : Bears (List α) := ⟨fun as => as.flatMap trees⟩
instance : Bears Cursor := ⟨fun c => trees c.comments ++ trees c.between⟩
instance [Bears α] [Bears β] : Bears (α × β) := ⟨fun p => trees p.1 ++ trees p.2⟩

section

variable [Bears α] [Bears β]

@[grind ←] theorem formed_none : Formed (none : Option α) := formed_of_trees rfl

@[grind =] theorem formed_some {a : α} : Formed (some a) ↔ Formed a := .rfl

@[grind ←] theorem formed_nil : Formed ([] : List α) := formed_of_trees rfl

/-- A list is formed when its members are. -/
@[grind =] theorem formed_cons {a : α} {as : List α} :
    Formed (a :: as) ↔ Formed a ∧ Formed as := List.forall_mem_append

@[grind =] theorem formed_singleton {a : α} : Formed [a] ↔ Formed a := by
  rw [formed_cons]
  exact and_iff_left formed_nil

@[grind =] theorem formed_cons_cons {a b : α} {as : List α} :
    Formed (a :: b :: as) ↔ Formed a ∧ Formed b ∧ Formed as := by
  rw [formed_cons, formed_cons]

@[grind =] theorem formed_append {as bs : List α} :
    Formed (as ++ bs) ↔ Formed as ∧ Formed bs := by
  simp only [Formed, trees, List.flatMap_append, List.forall_mem_append]

theorem formed_list {as : List α} : Formed as ↔ ∀ a ∈ as, Formed a := by
  induction as with
  | nil => exact ⟨fun _ => nofun, fun _ => formed_nil⟩
  | cons a as ih => rw [formed_cons, ih, List.forall_mem_cons]

@[grind =] theorem formed_pair {a : α} {b : β} : Formed (a, b) ↔ Formed a ∧ Formed b :=
  List.forall_mem_append

/-- Part of a formed list is formed. -/
theorem Formed.sublist {as bs : List α} (hbs : Formed bs) (h : as.Sublist bs) : Formed as :=
  formed_list.mpr fun a ha => formed_list.mp hbs a (h.subset ha)

@[grind ←] theorem formed_dropLast {as : List α} (h : Formed as) : Formed as.dropLast :=
  h.sublist as.dropLast_sublist

@[grind ←] theorem formed_getLast?_toList {as : List α} (h : Formed as) :
    Formed as.getLast?.toList :=
  formed_list.mpr fun a ha => formed_list.mp h a (List.mem_of_getLast? (Option.mem_toList.mp ha))

@[grind =] theorem formed_reverse {as : List α} : Formed as.reverse ↔ Formed as := by
  simp only [formed_list, List.mem_reverse]

end

/-- A cursor holds the comments it has passed. -/
@[grind =] theorem formed_cursor {c : Cursor} :
    Formed c ↔ Formed c.comments ∧ Formed c.between := List.forall_mem_append

section

variable {n m : Node} {ns : List Node}

/-- Trees are formed when every node in them fits. -/
theorem formed_trees : Formed ns ↔ ∀ m ∈ Node.preorders ns, m.Fits := by
  simp only [Formed, trees, Node.mem_preorders]
  grind

/-- A tree is formed when its root fits and its children are formed. -/
theorem formed_node : Formed n ↔ n.Fits ∧ Formed n.children := by
  have hself : Formed n ↔ ∀ m ∈ n.preorder, m.Fits := List.forall_mem_singleton
  rw [hself, Node.preorder_eq, List.forall_mem_cons, formed_trees]

/-- Every node of a formed tree fits. -/
theorem Formed.fits (hn : Formed n) (hm : m ∈ n.preorder) : m.Fits :=
  hn n (List.mem_singleton_self n) m hm

/-- What is below a node of a formed tree is formed. -/
theorem Formed.below (hn : Formed n) (hm : m ∈ n.preorder) : Formed m :=
  List.forall_mem_singleton.mpr fun _ hk => hn.fits (Node.preorder_trans n hm hk)

theorem Formed.children (hn : Formed n) : Formed n.children := (formed_node.mp hn).2

theorem Formed.child? {f : Field} (hn : Formed n) (h : n.child? f = some m) : Formed m :=
  formed_list.mp hn.children m (List.mem_of_find?_eq_some h)

/-- What counts of a node are its name, its kind, its part and its children. -/
theorem Formed.congr (hn : Formed n) (hnamed : m.named = n.named) (hkind : m.kind = n.kind)
    (hfield : m.field = n.field) (hchildren : m.children = n.children) : Formed m := by
  obtain ⟨hfits, hcs⟩ := formed_node.mp hn
  exact formed_node.mpr ⟨⟨by rw [hnamed, hkind]; exact hfits.token,
    by rw [hnamed, hfield]; exact hfits.operator⟩, hchildren ▸ hcs⟩

/-- A node is made a part of its parent. Only what is not named can be an operator. -/
@[grind ←] theorem formed_asField {f : Field} (hn : Formed n) (hf : f ≠ .operator) :
    Formed (n.asField f) := by
  obtain ⟨hfits, hcs⟩ := formed_node.mp hn
  exact formed_node.mpr ⟨⟨hfits.token, fun h => absurd (Option.some.inj h) hf⟩, hcs⟩

/-- A named node may be given any kind. -/
theorem formed_with_kind (hn : Formed n) (hnamed : n.named = true) (kind : Kind) :
    Formed { n with kind } := by
  obtain ⟨hfits, hcs⟩ := formed_node.mp hn
  exact formed_node.mpr ⟨⟨fun h => absurd (hnamed.symm.trans h) nofun, hfits.operator⟩, hcs⟩

/-- A node that is no token may be given any kind, and other children. -/
theorem formed_anew (hn : Formed n) (hkind : ∀ t, n.kind ≠ .token t) (kind : Kind)
    (hns : Formed ns) : Formed { n with kind, children := ns } := by
  obtain ⟨hfits, -⟩ := formed_node.mp hn
  refine formed_node.mpr ⟨⟨fun h => ?_, hfits.operator⟩, hns⟩
  obtain ⟨t, ht⟩ := hfits.token h
  exact absurd ht (hkind t)

/-- A leaf fits if it is named or a token. -/
theorem formed_leaf {p : Place} {kind : Kind} {k : Nat} {named : Bool}
    (h : named = false → ∃ t, kind = .token t) : Formed (p.leaf kind k named) :=
  formed_node.mpr ⟨⟨h, nofun⟩, formed_nil⟩

@[grind ←] theorem formed_leaf_named (p : Place) (kind : Kind) (k : Nat) :
    Formed (p.leaf kind k true) := formed_leaf nofun

@[grind ←] theorem formed_leaf_token (p : Place) (t : String) (k : Nat) :
    Formed (p.leaf (.token t) k false) := formed_leaf fun _ => ⟨t, rfl⟩

/-- Children that keep their form one by one keep it together. -/
@[grind ←] theorem formed_map {f : Node → Node} (hns : Formed ns)
    (hf : ∀ m, Formed m → Formed (f m)) : Formed (ns.map f) := by
  refine formed_list.mpr fun n hn => ?_
  obtain ⟨m, hm, rfl⟩ := List.mem_map.mp hn
  exact hf m (formed_list.mp hns m hm)

@[grind ←] theorem formed_token_node (t : Token) : Formed t.node := formed_leaf_token _ _ _

@[grind ←] theorem formed_token_leaf (t : Token) (kind : Kind) : Formed (t.leaf kind) :=
  formed_leaf_named _ _ _

/-- A node over others has their form. -/
@[grind =] theorem formed_over {kind : Kind} : Formed (Node.over kind ns) ↔ Formed ns :=
  formed_node.trans ⟨fun h => h.2, fun h => ⟨⟨nofun, nofun⟩, h⟩⟩

@[grind =] theorem formed_overTo {kind : Kind} {stop : Nat} :
    Formed (Node.overTo kind ns stop) ↔ Formed ns :=
  formed_node.trans ⟨fun h => h.2, fun h => ⟨⟨nofun, nofun⟩, h⟩⟩

mutual

/-- An expression that is read again as a pattern keeps its form. -/
theorem formed_toPattern? (n : Node) {m : Node} (h : n.toPattern? = some m) (hn : Formed n) :
    Formed m := by
  match n with
  | ⟨kind, _, _, _, _, _, _, _, _, _, cs⟩ =>
    have hcs : Formed cs := hn.children
    unfold Node.toPattern? at h
    extract_lets with_ at h
    split at h
    -- what is a target as it is
    iterate 11
      · cases h
        exact hn
    · obtain ⟨ms, hms, rfl⟩ := Option.map_eq_some_iff.mp h
      exact formed_anew hn nofun _ (formed_toPatterns? cs hms hcs)
    · obtain ⟨ms, hms, rfl⟩ := Option.map_eq_some_iff.mp h
      exact formed_anew hn nofun _ (formed_toPatterns? cs hms hcs)
    · cases h
      exact formed_anew hn nofun _ hcs
    · obtain ⟨ms, hms, h⟩ := Option.bind_eq_some_iff.mp h
      split at h
      · cases h
        exact formed_anew hn nofun _ (formed_toPatterns? cs hms hcs)
      · cases h
    · split at h
      · cases h
      · cases h
        exact formed_anew hn nofun _ hcs
    · obtain ⟨ms, hms, h⟩ := Option.bind_eq_some_iff.mp h
      cases h
      exact formed_anew hn nofun _ (formed_pairToPattern? cs hms hcs)
    · cases h
termination_by structural n

theorem formed_toPatterns? (ns : List Node) {ms : List Node} (h : Node.toPatterns? ns = some ms)
    (hns : Formed ns) : Formed ms := by
  match ns with
  | [] =>
    cases h
    exact formed_nil
  | n :: ns =>
    obtain ⟨m, hm, h⟩ := Option.bind_eq_some_iff.mp h
    obtain ⟨ms, hms, h⟩ := Option.bind_eq_some_iff.mp h
    cases h
    obtain ⟨hn, hns⟩ := formed_cons.mp hns
    exact formed_cons.mpr ⟨formed_toPattern? n hm hn, formed_toPatterns? ns hms hns⟩
termination_by structural ns

theorem formed_pairToPattern? (ns : List Node) {ms : List Node}
    (h : Node.pairToPattern? ns = some ms) (hns : Formed ns) : Formed ms := by
  match ns with
  | [] =>
    cases h
    exact formed_nil
  | n :: ns =>
    obtain ⟨ms, hms, h⟩ := Option.bind_eq_some_iff.mp h
    obtain ⟨hn, hns⟩ := formed_cons.mp hns
    have hrest := formed_pairToPattern? ns hms hns
    split at h
    · obtain ⟨m, hm, h⟩ := Option.bind_eq_some_iff.mp h
      cases h
      exact formed_cons.mpr ⟨formed_toPattern? n hm hn, hrest⟩
    · cases h
      exact formed_cons.mpr ⟨hn, hrest⟩
termination_by structural ns

end

attribute [grind →] formed_toPattern?

/-- What may be assigned to is a pattern or a reference. -/
@[grind →] theorem formed_toAssignable? (h : n.toAssignable? = some m) (hn : Formed n) :
    Formed m := by
  unfold Node.toAssignable? at h
  split at h <;> grind

/-- An expression that is read again as a parameter keeps its form. -/
@[grind →] theorem formed_toParameter? (h : n.toParameter? = some m) (hn : Formed n) :
    Formed m := by
  unfold Node.toParameter? at h
  grind

/-- What is skipped between tokens is comments. -/
theorem formed_skipBetween (fuel : Nat) (p : Place) {found : List Node} (h : Formed found) :
    Formed (skipBetween fuel p found).2 := by
  induction fuel generalizing p found with
  | zero => exact h
  | succ fuel ih =>
    unfold skipBetween
    dsimp only
    split
    · exact ih _ (formed_cons.mpr ⟨formed_leaf_named _ _ _, h⟩)
    · exact h

end

namespace Cursor

variable {c : Cursor}

/-- A cursor begins with the comments in front of its token. -/
theorem formed_atPlace (size : Nat) (p : Place) {comments : List Node} (h : Formed comments) :
    Formed (atPlace size p comments) :=
  formed_cursor.mpr ⟨h, formed_skipBetween size p formed_nil⟩

/-- A cursor that goes on keeps what it has passed. -/
@[grind ←] theorem formed_goTo (hc : Formed c) (p : Place) : Formed (c.goTo p) := by
  obtain ⟨hcomments, hbetween⟩ := formed_cursor.mp hc
  exact formed_atPlace _ _ (formed_append.mpr ⟨hbetween, hcomments⟩)

@[grind ←] theorem formed_advance (hc : Formed c) : Formed c.advance := formed_goTo hc _

@[grind ←] theorem formed_standAt (hc : Formed c) (p : Place) : Formed (c.standAt p) := by
  obtain ⟨hcomments, hbetween⟩ := formed_cursor.mp hc
  exact formed_cursor.mpr ⟨formed_append.mpr ⟨hbetween, hcomments⟩, formed_nil⟩

@[grind ←] theorem formed_resume (hc : Formed c) : Formed c.resume := formed_goTo hc _

/-- Comments of the other kind are passed alike. -/
@[grind ←] theorem formed_passHtmlComments (fuel : Nat) (hc : Formed c) :
    Formed (c.passHtmlComments fuel) := by
  induction fuel generalizing c with
  | zero => exact hc
  | succ fuel ih =>
    obtain ⟨hcomments, hbetween⟩ := formed_cursor.mp hc
    unfold passHtmlComments
    dsimp only
    split
    · exact ih (formed_cursor.mpr ⟨hcomments,
        formed_skipBetween _ _ (formed_cons.mpr ⟨formed_leaf_named _ _ _, hbetween⟩)⟩)
    · exact hc

@[grind ←] theorem formed_freeWord (hc : Formed c) : Formed c.freeWord := by
  unfold freeWord
  split
  · exact hc
  · exact hc

@[grind ←] theorem formed_atObject (hc : Formed c) : Formed c.atObject := by
  unfold atObject
  split
  · exact hc
  · exact hc

end Cursor

/-! ### Readers -/

/-- A reader that makes formed trees. -/
def Read.Forms [Bears α] (r : Read α) : Prop :=
  ∀ c a c', Formed c → r c = .ok (a, c') → Formed a ∧ Formed c'

/-- A reader that makes formed trees with a name at the top. -/
def Read.FormsNamed (r : Read Node) : Prop :=
  ∀ c n c', Formed c → r c = .ok (n, c') → n.named = true ∧ Formed n ∧ Formed c'

/-- Rules that make formed trees. -/
def Grammar.Forms (g : Grammar) : Prop := ∀ r, (g r).Forms

namespace Read

section

variable [Bears α] [Bears β] {r : Read α}

@[grind ←] theorem forms_pure {a : α} (ha : Formed a) : (pure a : Read α).Forms := by
  intro c a c' hc h
  cases h
  exact ⟨ha, hc⟩

@[grind ←] theorem forms_over {kind : Kind} {ns : List Node} (h : Formed ns) :
    (pure (.over kind ns) : Read Node).Forms := forms_pure (formed_over.mpr h)

omit [Bears α] [Bears β] in
/-- Where a sequence of readers succeeds both of them have. -/
theorem exists_of_bind {f : α → Read β} {c c' : Cursor} {b : β} (h : (r >>= f) c = .ok (b, c')) :
    ∃ a d, r c = .ok (a, d) ∧ f a d = .ok (b, c') := by
  change (r c).bind (fun p => f p.1 p.2) = .ok (b, c') at h
  cases hr : r c with
  | error i =>
    rw [hr] at h
    cases h
  | ok p =>
    rw [hr] at h
    exact ⟨p.1, p.2, rfl, h⟩

/-- What is read in turn forms trees if each reader does. -/
@[grind ←] theorem Forms.bind {f : α → Read β} (hr : r.Forms) (hf : ∀ a, Formed a → (f a).Forms) :
    (r >>= f).Forms := by
  intro c b c' hc h
  obtain ⟨a, d, hread, h⟩ := exists_of_bind h
  obtain ⟨ha, hd⟩ := hr c a d hc hread
  exact hf a ha d b c' hd h

omit [Bears α] [Bears β] in
theorem FormsNamed.forms {s : Read Node} (hs : s.FormsNamed) : s.Forms :=
  fun c n c' hc h => (hs c n c' hc h).2

omit [Bears α] in
/-- What follows a named node may rely on it. -/
theorem FormsNamed.bind {s : Read Node} {f : Node → Read β} (hs : s.FormsNamed)
    (hf : ∀ n, n.named = true → Formed n → (f n).Forms) : (s >>= f).Forms := by
  intro c b c' hc h
  obtain ⟨n, d, hread, h⟩ := exists_of_bind h
  obtain ⟨hnamed, hn, hd⟩ := hs c n d hc hread
  exact hf n hnamed hn d b c' hd h

omit [Bears β] in
theorem Forms.bind_named {f : α → Read Node} (hr : r.Forms)
    (hf : ∀ a, Formed a → (f a).FormsNamed) : (r >>= f).FormsNamed := by
  intro c n c' hc h
  obtain ⟨a, d, hread, h⟩ := exists_of_bind h
  obtain ⟨ha, hd⟩ := hr c a d hc hread
  exact hf a ha d n c' hd h

omit [Bears α] [Bears β] in
theorem formsNamed_pure {n : Node} (hnamed : n.named = true) (hn : Formed n) :
    (pure n : Read Node).FormsNamed := by
  intro c n c' hc h
  cases h
  exact ⟨hnamed, hn, hc⟩

/-- Readers for each member of a list form a list. -/
@[grind ←] theorem forms_mapM {f : γ → Read β} (hf : ∀ x, (f x).Forms) (xs : List γ) :
    (xs.mapM f).Forms := by
  induction xs with
  | nil => exact forms_pure formed_nil
  | cons x xs ih =>
    rw [List.mapM_cons]
    exact .bind (hf x) fun b hb => .bind ih fun bs hbs => forms_pure (formed_cons.mpr ⟨hb, hbs⟩)

@[grind ←] theorem forms_fail : (fail : Read α).Forms := by
  intro c a c' hc h
  cases h

@[grind ←] theorem forms_get : (get : Read Cursor).Forms := by
  intro c a c' hc h
  cases h
  exact ⟨hc, hc⟩

@[grind ←] theorem forms_set {d : Cursor} (hd : Formed d) : (set d : Read PUnit).Forms := by
  intro c a c' hc h
  cases h
  exact ⟨formed_plain _, hd⟩

@[grind ←] theorem forms_modify {f : Cursor → Cursor} (hf : ∀ c, Formed c → Formed (f c)) :
    (modify f : Read PUnit).Forms := by
  intro c a c' hc h
  cases h
  exact ⟨formed_plain _, hf c hc⟩

@[grind ←] theorem forms_look : look.Forms := by
  intro c a c' hc h
  cases h
  exact ⟨formed_plain _, hc⟩

/-- Two readers of which one is taken form trees if both do. -/
@[grind ←] theorem Forms.orElse {s : Read α} (hr : r.Forms) (hs : s.Forms) :
    (orElse r s).Forms := by
  intro c a c' hc h
  unfold Read.orElse at h
  grind [Read.Forms]

/-- A reader that is given up before some token forms trees. -/
@[grind ←] theorem Forms.unlessFollowed {s : Read α} (hr : r.Forms) (hs : s.Forms)
    (goesOn : Token → Bool) : (unlessFollowed goesOn r s).Forms := by
  intro c a c' hc h
  unfold Read.unlessFollowed at h
  grind [Read.Forms]

end

@[grind ←] theorem forms_lookFresh : lookFresh.Forms := by
  unfold lookFresh
  grind

/-- The token that is taken is a leaf. -/
@[grind ←] theorem forms_take : take.Forms := by
  unfold take
  grind

@[grind ←] theorem forms_takeAs (kind : Kind) : (takeAs kind).Forms := by
  unfold takeAs
  grind

@[grind ←] theorem forms_isMark (s : String) : (isMark s).Forms := by
  unfold isMark
  grind

@[grind ←] theorem forms_isWord (s : String) : (isWord s).Forms := by
  unfold isWord
  grind

/-- A mark that has to stand there is a leaf. -/
@[grind ←] theorem forms_mark (s : String) : (mark s).Forms := by
  unfold mark
  grind

@[grind ←] theorem forms_word (s : String) : (word s).Forms := by
  unfold word
  grind

@[grind ←] theorem forms_mark? (s : String) : (mark? s).Forms := by
  unfold mark?
  grind

@[grind ←] theorem forms_word? (s : String) : (word? s).Forms := by
  unfold word?
  grind

@[grind ←] theorem forms_lookBeyond : lookBeyond.Forms := by
  unfold lookBeyond
  grind

@[grind ←] theorem forms_impliedEnd (commentEnds : Bool) : (impliedEnd commentEnds).Forms := by
  unfold impliedEnd
  grind

@[grind ←] theorem forms_endsAfter (ends : Bool) : (endsAfter ends).Forms := by
  unfold endsAfter
  grind

@[grind ←] theorem forms_moveTo (offset : Nat) : (moveTo offset).Forms := by
  unfold moveTo
  grind

/-- A statement ends with a leaf or with nothing. -/
@[grind ←] theorem forms_semicolon (operatorMayFollow : Bool) :
    (semicolon operatorMayFollow).Forms := by
  unfold semicolon
  grind

/-- An identifier is a named leaf. -/
@[grind ←] theorem forms_identifier : identifier.Forms := by
  unfold identifier
  grind

/-- What is taken as an identifier may be given another kind. -/
theorem formsNamed_identifier_as (kind : Kind) :
    (do return { (← identifier) with kind } : Read Node).FormsNamed := by
  intro c n c' hc h
  have hread : (do return { (← identifier) with kind } : Read Node) c =
      if c.look.isIdentifier then .ok (c.look.leaf kind, c.advance)
      else .error c.look.place.pos := by
    unfold identifier
    change (if c.look.isIdentifier then takeAs .identifier else fail : Read Node) c >>= _ = _
    split <;> rfl
  rw [hread] at h
  split at h
  · cases h
    exact ⟨rfl, formed_token_leaf _ _, Cursor.formed_advance hc⟩
  · cases h

theorem forms_identifier_as (kind : Kind) :
    (do return { (← identifier) with kind } : Read Node).Forms :=
  (formsNamed_identifier_as kind).forms

@[grind ←] theorem forms_exactly (s : String) : (exactly s).Forms := by
  unfold exactly
  grind

@[grind ←] theorem forms_isExactly (s : String) : (isExactly s).Forms := by
  unfold isExactly
  grind

@[grind ←] theorem forms_bound : bound.Forms := by
  unfold bound
  grind

/-- What is read again and again is a formed list, by induction on the fuel. -/
@[grind ←] theorem forms_many {r : Read (Option Node)} (hr : r.Forms) (fuel : Nat) :
    (many r fuel).Forms := by
  induction fuel with
  | zero => exact forms_fail
  | succ fuel ih =>
    unfold many
    grind

/-- A part of a node keeps its form under the name of a field. -/
@[grind ←] theorem forms_asPart {f : Field} {r : Read Node} (hr : r.Forms) (hf : f ≠ .operator) :
    (asPart f r).Forms := by
  unfold asPart
  grind

/-- What is taken as it is written may be an operator. -/
@[grind ←] theorem forms_operator : (asPart .operator take).Forms := by
  intro c a c' hc h
  cases h
  exact ⟨formed_node.mpr ⟨⟨fun _ => ⟨_, rfl⟩, fun _ => rfl⟩, formed_nil⟩,
    Cursor.formed_advance hc⟩

end Read
end Stepper.Syntax
