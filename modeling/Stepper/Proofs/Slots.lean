import Mathlib.Data.List.Forall2
import Stepper.Proofs.Assigning
import Stepper.Proofs.Declaring
import Stepper.Proofs.Nesting
import Stepper.Proofs.Rounds
import Stepper.Proofs.Sorting.Searching

/-!
Slots of array literals and of array patterns. Between its brackets an array is a row of slots that
are filled or left out, with commas between them and comments anywhere. The reader of literals looks
at a comma for whether something stood before it, the one of patterns counts commas; both meet the
slots that are written, in their order. So the literal's value has one element for each slot, and a
pattern gives the target in a slot the element in the slot of the same number, and its rest what
comes from there on.
-/
namespace Stepper.Syntax.Node

variable {c : Node} {cs : List Node} {slots : List (Option Node)}

/-! ### Slots as they are written -/

def isComma (c : Node) : Bool := c.isToken ","

/-- Brackets and comments: they stand beside the slots. -/
def standsBeside (c : Node) : Bool := c.isToken "[" || c.isToken "]" || c.kind.isComment

/-- How a row of slots is written: each with a comma behind it, which may be left away behind the
last one if that is filled. -/
inductive Spells : List Node → List (Option Node) → Prop
  | nothing : Spells [] []
  | last {n : Node} (hn : n.isComma = false) : Spells [n] [some n]
  | filled {n comma : Node} {cs : List Node} {slots : List (Option Node)} (hn : n.isComma = false)
    (hcomma : comma.isComma = true) (h : Spells cs slots) :
    Spells (n :: comma :: cs) (some n :: slots)
  | leftOut {comma : Node} {cs : List Node} {slots : List (Option Node)}
    (hcomma : comma.isComma = true) (h : Spells cs slots) : Spells (comma :: cs) (none :: slots)

/-- The slots of an array, comments and brackets apart. -/
def HasSlots (n : Node) (slots : List (Option Node)) : Prop :=
  Spells (n.children.filter fun c => !c.standsBeside) slots

theorem standsBeside_of_mem {n : Node} (h : c ∈ n.children.filter fun c => !c.standsBeside) :
    c.standsBeside = false := by
  simpa using (List.mem_filter.mp h).2

/-- What is written between the brackets says which slots there are. -/
theorem Spells.unique {slots' : List (Option Node)} (h : Spells cs slots) (h' : Spells cs slots') :
    slots = slots' := by
  induction h generalizing slots' with
  | nothing =>
    cases h'
    rfl
  | last hn =>
    cases h' with
    | last => rfl
    | leftOut hcomma => exact absurd (hn.symm.trans hcomma) Bool.false_ne_true
  | filled hn hcomma h ih =>
    cases h' with
    | filled _ _ h' => rw [ih h']
    | leftOut hn' => exact absurd (hn.symm.trans hn') Bool.false_ne_true
  | leftOut hcomma h ih =>
    cases h' with
    | last hn => exact absurd (hn.symm.trans hcomma) Bool.false_ne_true
    | filled hn => exact absurd (hn.symm.trans hcomma) Bool.false_ne_true
    | leftOut _ h' => rw [ih h']

end Stepper.Syntax.Node

namespace Stepper.Machine

open Syntax Builtin

namespace Scopes

variable {s t : Scopes} {name : String}

theorem holder?_congr (hbinding : ∀ g, t.binding? g name = s.binding? g name)
    (hparent : ∀ g, t.parent? g = s.parent? g) (e : ScopeRef) :
    t.holder? name e = s.holder? name e := by
  have hbinds (g : ScopeRef) : t.Binds g name ↔ s.Binds g name := by
    rw [binds_iff, binds_iff, hbinding]
  fun_induction holder? s name e with
  | case1 e h => exact holder?_of_binds ((hbinds e).mpr h)
  | case2 e h hnone =>
    have hfree : ¬ ((t.get e).bindings.get? name).isSome = true := mt (hbinds e).mp h
    rw [holder?, if_neg hfree]
    split
    · rfl
    · simp_all
  | case3 e h p hp ih => rw [holder?_of_parent (mt (hbinds e).mp h) ((hparent e).trans hp), ih]

/-- What is bound to other names does not tell what a name stands for. -/
theorem read_setBinding_of_ne {n : String} (h : n ≠ name) (s : Scopes) (f e : ScopeRef)
    (b : Binding) : (s.setBinding f name b).read e n = s.read e n := by
  have hbinding (g : ScopeRef) : (s.setBinding f name b).binding? g n = s.binding? g n :=
    binding?_setBinding_of_ne (fun hg => h hg.2) b
  have hresolve : (s.setBinding f name b).resolve e n = s.resolve e n := by
    unfold resolve
    rw [holder?_congr hbinding (parent?_setBinding s f name b)]
    cases s.holder? n e with
    | none => rfl
    | some g => exact hbinding g
  unfold read
  rw [hresolve]

theorem read_setBinding_of_innermost {f e : ScopeRef} {v : Value} {kind : BindingKind}
    (h : (s.setBinding f name ⟨some v, kind⟩).Innermost name e f) (hf : f.index < s.all.size) :
    (s.setBinding f name ⟨some v, kind⟩).read e name = .ok v := by
  have hbinding : ((s.setBinding f name ⟨some v, kind⟩).get f).bindings.get? name =
      some ⟨some v, kind⟩ := binding?_setBinding_self hf _
  unfold read resolve
  rw [innermost_iff.mp h]
  simp only [hbinding]

theorem size_setBinding (s : Scopes) (f : ScopeRef) (name : String) (b : Binding) :
    (s.setBinding f name b).all.size = s.all.size := Array.size_modify

end Scopes

/-- A name has been given a value, and nothing else has changed that names stand for. -/
structure World.Gives (w : World) (e : ScopeRef) (name : String) (v : Value) (u : World) :
    Prop where
  heap : u.heap = w.heap
  size : u.scopes.all.size = w.scopes.all.size
  given : u.scopes.read e name = .ok v
  others : ∀ n, n ≠ name → u.scopes.read e n = w.scopes.read e n

/-- A course comes to its end, where something holds; unless names are assigned to that are there,
and one of the assignments is refused. -/
def BindMode.Brings (mode : BindMode) (Q : World → Prop) (x : Course Unit) : Prop :=
  (∃ u, x = .done () u ∧ Q u) ∨
    ((mode = .assign ∨ mode = .var) ∧ ∃ kind message u, x = .broke (.raised kind message) u)

theorem BindMode.Brings.bind {mode : BindMode} {Q R : World → Prop} {x : Course Unit}
    (hx : mode.Brings Q x) {f : Unit → World → Course Unit}
    (hf : ∀ u, Q u → mode.Brings R (f () u)) : mode.Brings R (x.bind f) := by
  rcases hx with ⟨u, rfl, hu⟩ | ⟨hmode, kind, message, u, rfl⟩
  · exact hf u hu
  · exact .inr ⟨hmode, kind, message, u, rfl⟩

theorem BindMode.Brings.imp {mode : BindMode} {Q R : World → Prop} {x : Course Unit}
    (hx : mode.Brings Q x) (h : ∀ u, Q u → R u) : mode.Brings R x := by
  rcases hx with ⟨u, hdone, hu⟩ | hbroke
  · exact .inl ⟨u, hdone, h u hu⟩
  · exact .inr hbroke

namespace Action

variable {e : ScopeRef} {mode : BindMode} {cs : List Node} {slots : List (Option Node)}
  {items : List Value}

/-- The element that a slot of a literal stands for. -/
def evalSlot (e : ScopeRef) : Option Node → Action Value
  | none => pure .undefined
  | some n => eval n e

theorem evalElements_cons (c : Node) (cs : List Node) (filled : Bool) (acc : List Value) :
    evalElements e (c :: cs) filled acc =
      if c.standsBeside then evalElements e cs filled acc
      else if c.isComma then evalElements e cs false (if filled then acc else .undefined :: acc)
      else if c.kind == .spreadElement then (do
        let vs ← iterate (← eval (← firstChild c) e)
        evalElements e cs true (vs.reverse ++ acc))
      else (do
        let v ← eval c e
        evalElements e cs true (v :: acc)) := rfl

theorem evalElements_filter (cs : List Node) (filled : Bool) (acc : List Value) :
    evalElements e cs filled acc =
      evalElements e (cs.filter fun c => !c.standsBeside) filled acc := by
  induction cs generalizing filled acc with
  | nil => rfl
  | cons c cs ih =>
    cases hc : c.standsBeside with
    | true => rw [List.filter_cons_of_neg (by simp [hc]), evalElements_cons, if_pos hc, ih]
    | false =>
      rw [List.filter_cons_of_pos (by simp [hc]), evalElements_cons, evalElements_cons]
      simp only [ih]

/-- A literal without a spread has its slots for elements: those that are left out stand for
`undefined`, and each of the others for what its node stands for. -/
theorem evalElements_of_spells (h : Node.Spells cs slots)
    (hcs : ∀ c ∈ cs, c.standsBeside = false)
    (hspread : ∀ n, some n ∈ slots → n.kind ≠ .spreadElement) (acc : List Value) :
    evalElements e cs false acc = collectRev (evalSlot e) slots acc := by
  -- at the beginning of each slot nothing has stood before the next comma
  induction h generalizing acc with
  | nothing => rfl
  | @last n hn =>
    have hbeside := hcs n List.mem_cons_self
    have hkind := hspread n List.mem_cons_self
    rw [evalElements_cons, collectRev_cons]
    simp only [hbeside, hn, beq_eq_false_iff_ne.mpr hkind]
    rfl
  | @filled n comma cs slots hn hcomma h ih =>
    have hbeside := hcs n List.mem_cons_self
    have hbeside' := hcs comma (List.mem_cons_of_mem n List.mem_cons_self)
    have hkind := hspread n List.mem_cons_self
    have hrest := ih (fun c hc => hcs c (List.mem_cons_of_mem n (List.mem_cons_of_mem comma hc)))
      fun m hm => hspread m (List.mem_cons_of_mem _ hm)
    rw [evalElements_cons, collectRev_cons]
    simp only [evalElements_cons comma, hbeside, hbeside', hn, hcomma,
      beq_eq_false_iff_ne.mpr hkind, hrest]
    rfl
  | @leftOut comma cs slots hcomma h ih =>
    have hbeside := hcs comma List.mem_cons_self
    have hrest := ih (fun c hc => hcs c (List.mem_cons_of_mem comma hc))
      fun m hm => hspread m (List.mem_cons_of_mem _ hm)
    rw [evalElements_cons, collectRev_cons]
    simp only [hbeside, hcomma, hrest]
    rfl

theorem evalArray_eq {n : Node} (h : n.HasSlots slots)
    (hspread : ∀ m, some m ∈ slots → m.kind ≠ .spreadElement) :
    evalArray n e = (collect (evalSlot e) slots >>= newArray : Action Value) := by
  unfold evalArray collect
  rw [evalElements_filter,
    evalElements_of_spells h (fun _ hc => Node.standsBeside_of_mem hc) hspread]
  exact (bind_assoc (collectRev (evalSlot e) slots []) (fun vs => pure vs.reverse) newArray).symm

/-- Gives the target in a slot the item of the slot's number, or `undefined` if there is none. -/
def giveSlot (items : List Value) (e : ScopeRef) (mode : BindMode) :
    Option Node × Nat → Action Unit
  | (none, _) => pure ()
  | (some t, i) => bindTarget t (items[i]?.getD .undefined) e mode

/-- Gives a rest the items from a number on. -/
def giveRest (items : List Value) (e : ScopeRef) (mode : BindMode) (i : Nat) :
    Option Node → Action Unit
  | none => pure ()
  | some r => do bindTarget (← firstChild r) (← newArray (items.drop i)) e mode

theorem bindItems_cons (c : Node) (cs : List Node) (i : Nat) :
    bindItems items e mode (c :: cs) i =
      if c.standsBeside then bindItems items e mode cs i
      else if c.isComma then bindItems items e mode cs (i + 1)
      else if c.kind == .restPattern then (do
        bindTarget (← firstChild c) (← newArray (items.drop i)) e mode
        bindItems items e mode cs i)
      else (do
        bindTarget c ((items[i]?).getD .undefined) e mode
        bindItems items e mode cs i) := rfl

theorem bindItems_filter (cs : List Node) (i : Nat) : bindItems items e mode cs i =
    bindItems items e mode (cs.filter fun c => !c.standsBeside) i := by
  induction cs generalizing i with
  | nil => rfl
  | cons c cs ih =>
    cases hc : c.standsBeside with
    | true => rw [List.filter_cons_of_neg (by simp [hc]), bindItems_cons, if_pos hc, ih]
    | false =>
      rw [List.filter_cons_of_pos (by simp [hc]), bindItems_cons, bindItems_cons]
      simp only [ih]

theorem bindItems_comma {c : Node} (hbeside : c.standsBeside = false) (hcomma : c.isComma = true)
    (cs : List Node) (i : Nat) :
    bindItems items e mode (c :: cs) i = bindItems items e mode cs (i + 1) := by
  rw [bindItems_cons, if_neg (by simp [hbeside]), if_pos hcomma]

theorem bindItems_target {t : Node} (hbeside : t.standsBeside = false) (hcomma : t.isComma = false)
    (hkind : t.kind ≠ .restPattern) (cs : List Node) (i : Nat) :
    bindItems items e mode (t :: cs) i =
      (giveSlot items e mode (some t, i) >>= fun _ => bindItems items e mode cs i) := by
  rw [bindItems_cons, if_neg (by simp [hbeside]), if_neg (by simp [hcomma]), if_neg (by simpa)]
  rfl

theorem bindItems_rest {r : Node} (hbeside : r.standsBeside = false) (hcomma : r.isComma = false)
    (hkind : r.kind = .restPattern) (cs : List Node) (i : Nat) :
    bindItems items e mode (r :: cs) i =
      (giveRest items e mode i (some r) >>= fun _ => bindItems items e mode cs i) := by
  rw [bindItems_cons, if_neg (by simp [hbeside]), if_neg (by simp [hcomma]),
    if_pos (by simp [hkind])]
  simp only [giveRest, bind_assoc]

theorem each_zipIdx_cons (slot : Option Node) (slots : List (Option Node)) (i : Nat)
    (f : Unit → Action Unit) :
    ((each (giveSlot items e mode) ((slot :: slots).zipIdx i) : Action Unit) >>= f) =
      (giveSlot items e mode (slot, i) >>= fun _ =>
        (each (giveSlot items e mode) (slots.zipIdx (i + 1)) : Action Unit) >>= f) := by
  rw [List.zipIdx_cons, each_cons]
  exact bind_assoc _ _ _

/-- The first of the slots of a pattern is a target's, or the rest's if there is no other. -/
theorem first_slot {targets slots : List (Option Node)} {rest slot : Option Node}
    (h : targets ++ rest.toList.map some = slot :: slots) :
    (∃ ts, targets = slot :: ts ∧ ts ++ rest.toList.map some = slots) ∨
      ∃ r, targets = [] ∧ rest = some r ∧ slot = some r ∧ slots = [] := by
  rcases List.append_eq_cons_iff.mp h with ⟨rfl, hrest⟩ | ⟨ts, rfl, rfl⟩
  · cases rest with
    | none => cases hrest
    | some r =>
      cases hrest
      exact .inr ⟨r, rfl, rfl, rfl, rfl⟩
  · exact .inl ⟨ts, rfl, rfl⟩

/-- A pattern gives to its targets in order, to each the item of its slot's number. -/
theorem bindItems_of_spells {targets : List (Option Node)} {rest : Option Node}
    (h : Node.Spells cs (targets ++ rest.toList.map some)) (hcs : ∀ c ∈ cs, c.standsBeside = false)
    (htargets : ∀ t, some t ∈ targets → t.kind ≠ .restPattern)
    (hrest : ∀ r, rest = some r → r.kind = .restPattern) (i : Nat) :
    bindItems items e mode cs i =
      ((each (giveSlot items e mode) (targets.zipIdx i) : Action Unit) >>= fun _ =>
        giveRest items e mode (i + targets.length) rest) := by
  generalize hslots : targets ++ rest.toList.map some = slots at h
  -- at the beginning of each slot the commas that were counted are as many as the slots before
  induction h generalizing targets i with
  | nothing =>
    obtain ⟨rfl, hnone⟩ := List.append_eq_nil_iff.mp hslots
    obtain rfl : rest = none := by simpa using hnone
    rfl
  | @last n hn =>
    have hbeside := hcs n List.mem_cons_self
    rcases first_slot hslots with ⟨ts, rfl, hts⟩ | ⟨r, rfl, rfl, hr, -⟩
    · obtain ⟨rfl, hnone⟩ := List.append_eq_nil_iff.mp hts
      obtain rfl : rest = none := by simpa using hnone
      rw [bindItems_target hbeside hn (htargets n List.mem_cons_self), each_zipIdx_cons]
      rfl
    · cases hr
      rw [bindItems_rest hbeside hn (hrest n rfl)]
      exact bind_pure _
  | @filled n comma cs slots hn hcomma h ih =>
    have hbeside := hcs n List.mem_cons_self
    have hbeside' := hcs comma (List.mem_cons_of_mem n List.mem_cons_self)
    have hcs := fun c hc => hcs c (List.mem_cons_of_mem n (List.mem_cons_of_mem comma hc))
    rcases first_slot hslots with ⟨ts, rfl, hts⟩ | ⟨r, rfl, rfl, hr, rfl⟩
    · have hnext : i + (some n :: ts).length = i + 1 + ts.length := by simp +arith
      rw [bindItems_target hbeside hn (htargets n List.mem_cons_self),
        bindItems_comma hbeside' hcomma, each_zipIdx_cons, hnext,
        ih hcs (fun t ht => htargets t (List.mem_cons_of_mem _ ht)) (i + 1) hts]
    · cases hr
      cases h
      rw [bindItems_rest hbeside hn (hrest n rfl), bindItems_comma hbeside' hcomma]
      exact bind_pure _
  | @leftOut comma cs slots hcomma h ih =>
    have hbeside := hcs comma List.mem_cons_self
    have hcs := fun c hc => hcs c (List.mem_cons_of_mem comma hc)
    rcases first_slot hslots with ⟨ts, rfl, hts⟩ | ⟨r, -, -, hr, -⟩
    · have hnext : i + (none :: ts).length = i + 1 + ts.length := by simp +arith
      rw [bindItems_comma hbeside hcomma, each_zipIdx_cons, hnext,
        ih hcs (fun t ht => htargets t (List.mem_cons_of_mem _ ht)) (i + 1) hts]
      rfl
    · cases hr

/-- To bind a pattern to an array gives each target the element of its slot, and the rest those from
its slot on. -/
theorem bindPattern_of_slots {n : Node} {targets : List (Option Node)} {rest : Option Node}
    (hkind : n.kind = .arrayPattern) (h : n.HasSlots (targets ++ rest.toList.map some))
    (htargets : ∀ t, some t ∈ targets → t.kind ≠ .restPattern)
    (hrest : ∀ r, rest = some r → r.kind = .restPattern) {c : Context} {w : World} {r : Ref}
    (hr : (w.heap.get r).content = .array items.toArray) :
    bindPattern n (.object r) e mode c w =
      ((each (giveSlot items e mode) targets.zipIdx : Action Unit) >>= fun _ =>
        giveRest items e mode targets.length rest) c w := by
  have hiterate : iterate (.object r) c w = .done items w := by
    unfold iterate
    simp only
    rw [bind_of_done (rfl : object r c w = .done (w.heap.get r) w), hr]
    rfl
  unfold bindPattern
  rw [hkind]
  change (iterate (.object r) >>= fun vs => bindItems vs e mode n.children 0) c w = _
  rw [bind_of_done hiterate, bindItems_filter,
    bindItems_of_spells h (fun _ hc => Node.standsBeside_of_mem hc) htargets hrest, Nat.zero_add]

theorem collectRev_ends {α β : Type} {f : α → Action β} {c : Context} {P : α → β → Prop}
    (hf : ∀ a w, (f a c w).Ends fun b _ => P a b) (as : List α) (acc : List β) (w : World) :
    (collectRev f as acc c w).Ends fun bs _ =>
      ∃ vs, bs = vs.reverse ++ acc ∧ List.Forall₂ P as vs := by
  induction as generalizing acc w with
  | nil => exact ⟨[], rfl, .nil⟩
  | cons a as ih =>
    rw [collectRev_cons]
    refine (hf a w).bind fun b u hb => (ih (b :: acc) u).imp ?_
    rintro bs v ⟨vs, rfl, hvs⟩
    exact ⟨b :: vs, by simp, .cons hb hvs⟩

theorem collect_ends {α β : Type} {f : α → Action β} {c : Context} {P : α → β → Prop}
    (hf : ∀ a w, (f a c w).Ends fun b _ => P a b) (as : List α) (w : World) :
    (collect f as c w).Ends fun bs _ => List.Forall₂ P as bs := by
  refine (collectRev_ends hf as [] w).bind ?_
  rintro bs u ⟨vs, rfl, hvs⟩
  change List.Forall₂ P as (vs.reverse ++ []).reverse
  rwa [List.append_nil, List.reverse_reverse]

/-- An array has been made of elements. -/
def Holds (w : World) (v : Value) (es : List Value) : Prop :=
  ∃ r, v = .object r ∧ (w.heap.get r).content = .array es.toArray

theorem newArray_holds (es : List Value) (c : Context) (w : World) :
    ∃ v u, newArray es c w = .done v u ∧ Holds u v es ∧ u.scopes = w.scopes :=
  ⟨_, _, Builtin.newArray_eq es c w, ⟨_, rfl, by rw [Heap.get_alloc]; rfl⟩, rfl⟩

theorem evalArray_ends {n : Node} (h : n.HasSlots slots)
    (hspread : ∀ m, some m ∈ slots → m.kind ≠ .spreadElement) (c : Context) (w : World) :
    (evalArray n e c w).Ends fun v u => ∃ es, Holds u v es ∧
      List.Forall₂ (fun slot v => slot = none → v = .undefined) slots es := by
  have hslot : ∀ slot w, (evalSlot e slot c w).Ends fun v _ => slot = none → v = .undefined := by
    intro slot w
    cases slot with
    | none => exact fun _ => rfl
    | some m => exact Course.ends_of_forall (fun _ _ h => nomatch h) _
  rw [evalArray_eq h hspread]
  refine (collect_ends hslot slots w).bind fun es u hes => ?_
  obtain ⟨v, u', hdone, hholds, -⟩ := newArray_holds es c u
  rw [hdone]
  exact ⟨es, hholds, hes⟩

/-! ### Names in slots -/

section

variable {c d : Context} {w : World} {t : Node}

theorem bindName_gives (hmode : mode ≠ .declare .var) (he : e.index < w.scopes.all.size)
    (name : String) (v : Value) :
    mode.Brings (w.Gives e name v) (bindName name v e mode c w) := by
  have hset {f : ScopeRef} {kind : BindingKind} (hf : f.index < w.scopes.all.size)
      (h : (w.scopes.setBinding f name ⟨some v, kind⟩).Innermost name e f) :
      w.Gives e name v { w with scopes := w.scopes.setBinding f name ⟨some v, kind⟩ } :=
    ⟨rfl, w.scopes.size_setBinding f name _, Scopes.read_setBinding_of_innermost h hf,
      fun _ hn => Scopes.read_setBinding_of_ne hn w.scopes f e _⟩
  have hassign (hmode : mode = .assign ∨ mode = .var) :
      mode.Brings (w.Gives e name v) (writeReference (.name name) e v c w) := by
    rcases assign_cases c w e name v with ⟨kind, message, -, h⟩ | ⟨f, kind, hleads, -, -, h⟩
    · exact .inr ⟨hmode, kind, _, w, h⟩
    · exact .inl ⟨_, h, hset (hleads.lt he) (hleads.innermost he _)⟩
  cases mode with
  | assign => exact hassign (.inl rfl)
  | var => exact hassign (.inr rfl)
  | declare kind =>
    have hkind : kind ≠ .var := fun h => hmode (congrArg BindMode.declare h)
    have hinner : (w.scopes.setBinding e name ⟨some v, kind⟩).Innermost name e e :=
      Scopes.innermost_of_holder? (Scopes.holder?_of_binds
        (Scopes.binds_iff.mpr ⟨_, Scopes.binding?_setBinding_self he _⟩))
    refine .inl ⟨_, ?_, hset he hinner⟩
    change Course.done () { w with scopes := w.scopes.declare e name kind (some v) } = _
    rw [Scopes.declare, if_neg fun h => hkind h.1]

theorem bindTarget_gives (hc : c.inner = Execution.evaluatorIn d) (hmode : mode ≠ .declare .var)
    (he : e.index < w.scopes.all.size) (ht : t.kind = .identifier) (v : Value) :
    mode.Brings (w.Gives e (t.text d.source) v) (bindTarget t v e mode c w) := by
  have heq : bindTarget t v e mode c w = bindName (t.text d.source) v e mode d w := by
    change c.inner.bind t v e mode w = _
    rw [hc]
    change bindPattern t v e mode d w = _
    unfold bindPattern
    rw [ht]
    rfl
  rw [heq]
  exact bindName_gives hmode he _ v

/-- The names of slots have been given items, from a number on: each the one of its slot's number,
unless a later slot has the same name. -/
structure GivesSlots (source : String) (items : List Value) (e : ScopeRef)
    (slots : List (Option Node)) (k : Nat) (w u : World) : Prop where
  heap : u.heap = w.heap
  size : u.scopes.all.size = w.scopes.all.size
  given : ∀ (i : Nat) (t : Node), slots[i]? = some (some t) →
    (∀ (j : Nat) (t' : Node), i < j → slots[j]? = some (some t') → t'.text source ≠ t.text source) →
    u.scopes.read e (t.text source) = .ok (items[k + i]?.getD .undefined)
  others : ∀ n, (∀ t, some t ∈ slots → n ≠ t.text source) → u.scopes.read e n = w.scopes.read e n

theorem GivesSlots.leftOut {source : String} {k : Nat} {u : World}
    (h : GivesSlots source items e slots (k + 1) w u) :
    GivesSlots source items e (none :: slots) k w u where
  heap := h.heap
  size := h.size
  given i t hi hlater := by
    obtain _ | i := i
    · cases hi
    · rw [Nat.add_comm i 1, ← Nat.add_assoc]
      exact h.given i t hi fun j t' hj => hlater (j + 1) t' (Nat.succ_lt_succ hj)
  others n hn := h.others n fun t ht => hn t (List.mem_cons_of_mem _ ht)

theorem GivesSlots.filled {source : String} {k : Nat} {u v : World}
    (hfirst : w.Gives e (t.text source) (items[k]?.getD .undefined) v)
    (h : GivesSlots source items e slots (k + 1) v u) :
    GivesSlots source items e (some t :: slots) k w u where
  heap := h.heap.trans hfirst.heap
  size := h.size.trans hfirst.size
  given i t' hi hlater := by
    obtain _ | i := i
    · cases hi
      refine (h.others _ fun t' ht' hname => ?_).trans hfirst.given
      obtain ⟨j, hj⟩ := List.mem_iff_getElem?.mp ht'
      exact hlater (j + 1) t' (Nat.succ_pos j) hj hname.symm
    · rw [Nat.add_comm i 1, ← Nat.add_assoc]
      exact h.given i t' hi fun j t'' hj => hlater (j + 1) t'' (Nat.succ_lt_succ hj)
  others n hn := (h.others n fun t' ht' => hn t' (List.mem_cons_of_mem _ ht')).trans
    (hfirst.others n (hn t List.mem_cons_self))

theorem giveSlots_gives (hc : c.inner = Execution.evaluatorIn d) (hmode : mode ≠ .declare .var)
    (he : e.index < w.scopes.all.size) (hnames : ∀ t, some t ∈ slots → t.kind = .identifier)
    (k : Nat) :
    mode.Brings (GivesSlots d.source items e slots k w)
      (each (giveSlot items e mode) (slots.zipIdx k) c w) := by
  induction slots generalizing k w with
  | nil =>
    exact .inl ⟨w, rfl, rfl, rfl, fun i t hi => (nomatch hi), fun n _ => rfl⟩
  | cons slot slots ih =>
    have hlater := fun t ht => hnames t (List.mem_cons_of_mem slot ht)
    rw [List.zipIdx_cons, each_cons]
    cases slot with
    | none =>
      exact (ih he hlater (k + 1)).imp fun u hu => hu.leftOut
    | some t =>
      have hfirst := bindTarget_gives hc hmode he (hnames t List.mem_cons_self)
        (items[k]?.getD .undefined)
      exact hfirst.bind fun v hv => (ih (hv.size ▸ he) hlater (k + 1)).imp fun u hu => .filled hv hu

/-- What is bound last, the rest, is given a new array. -/
theorem giveRest_gives (hc : c.inner = Execution.evaluatorIn d) (hmode : mode ≠ .declare .var)
    (he : e.index < w.scopes.all.size) {r : Node} (hr : r.namedChildren.head? = some t)
    (ht : t.kind = .identifier) (i : Nat) :
    mode.Brings (fun u =>
        (∃ v, u.scopes.read e (t.text d.source) = .ok v ∧ Holds u v (items.drop i)) ∧
        ∀ n, n ≠ t.text d.source → u.scopes.read e n = w.scopes.read e n)
      (giveRest items e mode i (some r) c w) := by
  have hfirst : firstChild r c w = .done t w := by
    unfold firstChild
    rw [hr]
    rfl
  obtain ⟨v, u, hdone, ⟨q, rfl, hq⟩, hscopes⟩ := newArray_holds (items.drop i) c w
  have heq : giveRest items e mode i (some r) c w = bindTarget t (.object q) e mode c u := by
    change (firstChild r >>= fun t => newArray (items.drop i) >>= fun v =>
      bindTarget t v e mode : Action Unit) c w = _
    rw [bind_of_done hfirst, bind_of_done hdone]
  rw [heq]
  refine (bindTarget_gives hc hmode (hscopes ▸ he) ht _).imp fun u' hu' =>
    ⟨⟨_, hu'.given, q, rfl, ?_⟩, ?_⟩
  · rw [hu'.heap, hq]
  · intro n hn
    rw [hu'.others n hn, hscopes]

/-- What the names of a pattern stand for that an array has been bound to: that of a target for the
element of its slot, if no later one is the same, and that of the rest for an array of the elements
from its slot on. -/
structure TakesSlots (source : String) (items : List Value) (e : ScopeRef)
    (targets : List (Option Node)) (rest : Option Node) (u : World) : Prop where
  target : ∀ (i : Nat) (t : Node), targets[i]? = some (some t) →
    (∀ (j : Nat) (t' : Node), i < j → targets[j]? = some (some t') →
      t'.text source ≠ t.text source) →
    (∀ r (t' : Node), rest = some r → r.namedChildren.head? = some t' →
      t'.text source ≠ t.text source) →
    u.scopes.read e (t.text source) = .ok (items[i]?.getD .undefined)
  rest : ∀ r (t : Node), rest = some r → r.namedChildren.head? = some t →
    ∃ v, u.scopes.read e (t.text source) = .ok v ∧ Holds u v (items.drop targets.length)

theorem bindPattern_takes (hc : c.inner = Execution.evaluatorIn d) (hmode : mode ≠ .declare .var)
    (he : e.index < w.scopes.all.size) {n : Node} {targets : List (Option Node)}
    {rest : Option Node} (hkind : n.kind = .arrayPattern) (h : n.HasSlots (targets ++ rest.toList.map some))
    (hnames : ∀ t, some t ∈ targets → t.kind = .identifier)
    (hrest : ∀ r, rest = some r → r.kind = .restPattern ∧
      ∃ t, r.namedChildren.head? = some t ∧ t.kind = .identifier)
    {v : Value} (hv : Holds w v items) :
    mode.Brings (TakesSlots d.source items e targets rest) (bindPattern n v e mode c w) := by
  obtain ⟨q, rfl, hq⟩ := hv
  have htargets : ∀ t, some t ∈ targets → t.kind ≠ .restPattern := fun t ht hrest => by
    rw [hnames t ht] at hrest
    cases hrest
  rw [bindPattern_of_slots hkind h htargets (fun r hr => (hrest r hr).1) hq]
  refine (giveSlots_gives hc hmode he hnames 0).bind fun u hu => ?_
  have htarget (i : Nat) (t : Node) (hi : targets[i]? = some (some t))
      (hlater : ∀ j t', i < j → targets[j]? = some (some t') →
        t'.text d.source ≠ t.text d.source) :
      u.scopes.read e (t.text d.source) = .ok (items[i]?.getD .undefined) := by
    have hgiven := hu.given i t hi hlater
    rwa [Nat.zero_add] at hgiven
  cases rest with
  | none =>
    exact .inl ⟨u, rfl, fun i t hi hlater _ => htarget i t hi hlater, fun r t hr => nomatch hr⟩
  | some r =>
    obtain ⟨-, t, ht, hkind⟩ := hrest r rfl
    refine (giveRest_gives hc hmode (hu.size ▸ he) ht hkind targets.length).imp fun u' hu' => ?_
    refine ⟨fun i t' hi hlater hother => ?_, fun r' t' hr ht' => ?_⟩
    · rw [hu'.2 _ (hother r t rfl ht).symm]
      exact htarget i t' hi hlater
    · cases hr
      cases ht.symm.trans ht'
      exact hu'.1

end

/-- Array literals and array patterns count slots alike. However an array is written without a
spread, with slots left out, comments and a comma behind the last one or none, its literal has one
element for each slot, `undefined` for one that is left out. To bind a pattern to it gives the
target in each slot what the literal has in the slot of that number, or `undefined`, and a rest a
new array of what the literal has from its slot on; so where the targets are names, these stand for
it then. -/
theorem patterns_take_the_slots_of_literals {literal pattern : Node} {targets : List (Option Node)}
    {rest : Option Node} (hliteral : literal.kind = .array) (hslots : literal.HasSlots slots)
    (hspread : ∀ m, some m ∈ slots → m.kind ≠ .spreadElement)
    (hpattern : pattern.kind = .arrayPattern)
    (htargets : pattern.HasSlots (targets ++ rest.toList.map some))
    (hrest : ∀ r, some r ∈ targets → r.kind ≠ .restPattern)
    (hlast : ∀ r, rest = some r → r.kind = .restPattern) (e e' : ScopeRef) (mode : BindMode)
    (isHead : Bool) :
    evaluate literal e isHead = (collect (evalSlot e) slots >>= newArray : Action Value) ∧
    (∀ c w, (evaluate literal e isHead c w).Ends fun v u => ∃ es, Holds u v es ∧
      List.Forall₂ (fun slot v => slot = none → v = .undefined) slots es) ∧
    (evaluate literal e isHead >>= fun v => bindPattern pattern v e' mode) =
      (do
        let es ← collect (evalSlot e) slots
        let _ ← newArray es
        each (giveSlot es e' mode) targets.zipIdx
        giveRest es e' mode targets.length rest) ∧
    ∀ (c d : Context) (w : World) (v : Value) (es : List Value),
      c.inner = Execution.evaluatorIn d → mode ≠ .declare .var → e'.index < w.scopes.all.size →
      (∀ t, some t ∈ targets → t.kind = .identifier) →
      (∀ r, rest = some r → ∃ t, r.namedChildren.head? = some t ∧ t.kind = .identifier) →
      Holds w v es →
      mode.Brings (TakesSlots d.source es e' targets rest) (bindPattern pattern v e' mode c w) := by
  have hvalue : evaluate literal e isHead = evalArray literal e := by
    unfold evaluate
    rw [hliteral]
  rw [hvalue]
  refine ⟨evalArray_eq hslots hspread, evalArray_ends hslots hspread, ?_, ?_⟩
  · rw [evalArray_eq hslots hspread, bind_assoc]
    refine congrArg (collect (evalSlot e) slots >>= ·)
      (funext fun es => funext fun c => funext fun w => ?_)
    obtain ⟨v, u, hdone, ⟨r, rfl, hr⟩, -⟩ := newArray_holds es c w
    rw [bind_of_done hdone, bind_of_done hdone,
      bindPattern_of_slots hpattern htargets hrest hlast hr]
  · intro c d w v es hc hmode he hnames hname hv
    exact bindPattern_takes hc hmode he hpattern htargets hnames
      (fun r hr => ⟨hlast r hr, hname r hr⟩) hv

def mark (s : String) : Node := { kind := .token s, named := false }

def gappySource : String := "[a, , ...r] = [true, , null /**/,]"

/-- The literal `[true, , null /**/,]`. -/
def gappyLiteral : Node :=
  { kind := .array
    children :=
      [mark "[", { kind := .trueWord }, mark ",", mark ",", { kind := .nullWord },
        { kind := .comment }, mark ",", mark "]"] }

/-- The rest `...r`. -/
def gappyRest : Node := { kind := .restPattern, children := [Execution.nameNode 9 10] }

/-- The pattern `[a, , ...r]`. -/
def gappyPattern : Node :=
  { kind := .arrayPattern
    children := [mark "[", Execution.nameNode 1 2, mark ",", mark ",", gappyRest, mark "]"] }

theorem gappyLiteral_hasSlots :
    gappyLiteral.HasSlots [some { kind := .trueWord }, none, some { kind := .nullWord }] :=
  .filled rfl rfl (.leftOut rfl (.filled rfl rfl .nothing))

theorem gappyPattern_hasSlots :
    gappyPattern.HasSlots
      ([some (Execution.nameNode 1 2), none] ++ (some gappyRest).toList.map some) :=
  .filled rfl rfl (.leftOut rfl (.last rfl))

/-- At the pattern `[a, , ...r]` and the value of `[true, , null /**/,]`. -/
theorem gappyPattern_takes_gappyLiteral :
    ∃ v w u, evaluate gappyLiteral ⟨0⟩ false (Execution.outermostContext gappySource false)
        Execution.oneScope = .done v w ∧
      Holds w v [.bool true, .undefined, .null] ∧
      bindPattern gappyPattern v ⟨0⟩ (.declare .let_)
        (Execution.outermostContext gappySource false) w = .done () u ∧
      u.scopes.read ⟨0⟩ "a" = .ok (.bool true) ∧
      ∃ r, u.scopes.read ⟨0⟩ "r" = .ok r ∧ Holds u r [.null] := by
  have hspread : ∀ m, some m ∈ ([some { kind := .trueWord }, none, some { kind := .nullWord }] :
      List (Option Node)) → m.kind ≠ .spreadElement := by
    simp
  have htargets : ∀ t, some t ∈ [some (Execution.nameNode 1 2), none] → t.kind = .identifier := by
    simp [Execution.nameNode]
  have hname : ∀ r, some gappyRest = some r →
      ∃ t, r.namedChildren.head? = some t ∧ t.kind = .identifier := by
    rintro r ⟨⟩
    exact ⟨_, rfl, rfl⟩
  have hrest : ∀ r, some r ∈ [some (Execution.nameNode 1 2), none] → r.kind ≠ .restPattern := by
    simp [Execution.nameNode]
  obtain ⟨-, -, -, htakes⟩ := patterns_take_the_slots_of_literals rfl gappyLiteral_hasSlots hspread
    rfl gappyPattern_hasSlots hrest (by rintro r ⟨⟩; rfl) ⟨0⟩ ⟨0⟩ (.declare .let_) false
  obtain ⟨v, w, hvalue, hholds, hscopes⟩ : ∃ v w, evaluate gappyLiteral ⟨0⟩ false
      (Execution.outermostContext gappySource false) Execution.oneScope = .done v w ∧
      Holds w v [.bool true, .undefined, .null] ∧ w.scopes = Execution.oneScope.scopes :=
    ⟨_, _, rfl, ⟨_, rfl, rfl⟩, rfl⟩
  have hscope : (⟨0⟩ : ScopeRef).index < w.scopes.all.size := hscopes ▸ Nat.zero_lt_one
  rcases htakes (Execution.outermostContext gappySource false) _ w v _ rfl nofun hscope htargets
    hname hholds with ⟨u, hdone, hu⟩ | ⟨hmode | hmode, -⟩
  · refine ⟨v, w, u, hvalue, hholds, hdone, hu.target 0 _ rfl ?_ ?_, hu.rest _ _ rfl rfl⟩
    · rintro j t' hj ht'
      obtain _ | _ | j := j <;> cases ht'
      cases hj
    · rintro r t' ⟨⟩ ⟨⟩
      decide
  · cases hmode
  · cases hmode

end Action
end Stepper.Machine
