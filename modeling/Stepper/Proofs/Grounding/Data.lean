import Stepper.Machine.Class

/-!
What data refers to. Objects refer to others: by their prototypes, their properties and what else
they hold; so do scopes, values and lists of values. Data is known within a horizon if all that it
refers to are objects there, so what is known stays known when objects are added. An object may be
hidden from a horizon while it is being made: what is known there does not refer to it.
-/
namespace Stepper.Machine

open Syntax

variable {α β γ : Type}

/-- Data that may refer to objects. -/
class Refers (α : Type) where
  refs : α → List Ref

export Refers (refs)

/-- The first so many objects of a heap, but for some that are hidden. -/
structure Horizon where
  size : Nat
  hidden : List Ref

def Horizon.Has (n : Horizon) (r : Ref) : Prop := r.index < n.size ∧ r ∉ n.hidden

/-- All objects that something refers to are within a horizon. -/
def Known [Refers α] (n : Horizon) (a : α) : Prop := ∀ r ∈ refs a, n.Has r

/-- A horizon is later than another if it has all the objects of the other. -/
structure Later (n m : Horizon) : Prop where
  size_le : n.size ≤ m.size
  has : ∀ r, n.Has r → m.Has r

/-- What is known stays known when objects are made. -/
@[grind →] theorem Known.mono [Refers α] {n m : Horizon} {a : α} (ha : Known n a)
    (h : Later n m) : Known m a := fun r hr => h.has r (ha r hr)

/-- Data that refers to nothing is known. -/
theorem known_of_refs [Refers α] {n : Horizon} {a : α} (h : refs a = []) : Known n a := by
  intro r hr
  rw [h] at hr
  cases hr

/-- Data that refers to no object. -/
class Refers.Plain (α : Type) [Refers α] : Prop where
  refs_eq : ∀ a : α, refs a = []

/-- Data of a plain type is known at every horizon. -/
@[grind ←] theorem known_plain [Refers α] [Refers.Plain α] (n : Horizon) (a : α) : Known n a :=
  known_of_refs (Refers.Plain.refs_eq a)

@[reducible] def Refers.plain : Refers α := ⟨fun _ => []⟩

instance : Refers Unit := .plain
instance : Refers.Plain Unit := ⟨fun _ => rfl⟩
instance : Refers Bool := .plain
instance : Refers.Plain Bool := ⟨fun _ => rfl⟩
instance : Refers Nat := .plain
instance : Refers.Plain Nat := ⟨fun _ => rfl⟩
instance : Refers Int := .plain
instance : Refers.Plain Int := ⟨fun _ => rfl⟩
instance : Refers Float := .plain
instance : Refers.Plain Float := ⟨fun _ => rfl⟩
instance : Refers String := .plain
instance : Refers.Plain String := ⟨fun _ => rfl⟩
instance : Refers Node := .plain
instance : Refers.Plain Node := ⟨fun _ => rfl⟩
instance : Refers ScopeRef := .plain
instance : Refers.Plain ScopeRef := ⟨fun _ => rfl⟩
instance : Refers Key := .plain
instance : Refers.Plain Key := ⟨fun _ => rfl⟩
instance : Refers ErrorKind := .plain
instance : Refers.Plain ErrorKind := ⟨fun _ => rfl⟩
instance : Refers BindingKind := .plain
instance : Refers.Plain BindingKind := ⟨fun _ => rfl⟩

/-! ### Data made of other data -/

instance : Refers Ref := ⟨fun r => [r]⟩

instance [Refers α] : Refers (Option α) := ⟨fun o => o.elim [] refs⟩
instance [Refers α] [Refers.Plain α] : Refers.Plain (Option α) :=
  ⟨fun o => by cases o with | none => rfl | some a => exact Refers.Plain.refs_eq a⟩

instance [Refers α] : Refers (List α) := ⟨fun as => as.flatMap refs⟩
instance [Refers α] [Refers.Plain α] : Refers.Plain (List α) :=
  ⟨fun _ => List.flatMap_eq_nil_iff.mpr fun a _ => Refers.Plain.refs_eq a⟩

instance [Refers α] : Refers (Array α) := ⟨fun as => refs as.toList⟩

instance [Refers α] [Refers β] : Refers (α × β) := ⟨fun p => refs p.1 ++ refs p.2⟩
instance [Refers α] [Refers β] [Refers.Plain α] [Refers.Plain β] : Refers.Plain (α × β) :=
  ⟨fun p => by simp [refs, Refers.Plain.refs_eq]⟩

instance [Refers α] [Refers β] : Refers (α ⊕ β) := ⟨fun s => s.elim refs refs⟩
instance [Refers α] [Refers β] [Refers.Plain α] [Refers.Plain β] : Refers.Plain (α ⊕ β) :=
  ⟨fun s => by
    cases s with
    | inl a => exact Refers.Plain.refs_eq a
    | inr b => exact Refers.Plain.refs_eq b⟩

section

variable [Refers α] [Refers β] [Refers γ] {n : Horizon}

/-- A reference is known when its object has been made. -/
theorem known_ref {r : Ref} : Known n r ↔ n.Has r := List.forall_mem_singleton

@[grind ←] theorem known_none : Known n (none : Option α) := known_of_refs rfl

@[grind =] theorem known_some {a : α} : Known n (some a) ↔ Known n a := .rfl

/-- What is chosen by a test is known if each choice is where the test makes it. -/
theorem known_ite {p : Prop} [Decidable p] {a b : α} (ha : p → Known n a) (hb : ¬ p → Known n b) :
    Known n (if p then a else b) := by
  split
  · exact ha ‹p›
  · exact hb ‹¬ p›

theorem known_option {o : Option α} : Known n o ↔ ∀ a, o = some a → Known n a := by
  cases o <;> simp [known_none, known_some]

@[grind ←] theorem known_nil : Known n ([] : List α) := known_of_refs rfl

/-- A list is known when all its members are. -/
theorem known_list {as : List α} : Known n as ↔ ∀ a ∈ as, Known n a where
  mp h a ha r hr := h r (List.mem_flatMap_of_mem ha hr)
  mpr h r hr := by
    obtain ⟨a, ha, hr⟩ := List.mem_flatMap.mp hr
    exact h a ha r hr

@[grind =] theorem known_cons {a : α} {as : List α} :
    Known n (a :: as) ↔ Known n a ∧ Known n as := List.forall_mem_append

/-- Two lists are known together. -/
@[grind =] theorem known_append {as bs : List α} :
    Known n (as ++ bs) ↔ Known n as ∧ Known n bs :=
  known_list.trans (List.forall_mem_append.trans (and_congr known_list.symm known_list.symm))

@[grind =] theorem known_pair {a : α} {b : β} : Known n (a, b) ↔ Known n a ∧ Known n b :=
  List.forall_mem_append

/-- A pair is known when both of its parts are. -/
theorem known_prod {p : α × β} : Known n p ↔ Known n p.1 ∧ Known n p.2 := known_pair

@[grind ←] theorem known_fst {p : α × β} (h : Known n p) : Known n p.1 := (known_prod.mp h).1

@[grind ←] theorem known_snd {p : α × β} (h : Known n p) : Known n p.2 := (known_prod.mp h).2

@[grind =] theorem known_inl {a : α} : Known n (.inl a : α ⊕ β) ↔ Known n a := .rfl

@[grind =] theorem known_inr {b : β} : Known n (.inr b : α ⊕ β) ↔ Known n b := .rfl

/-- A list whose members are all in a known one is known. -/
theorem known_of_subset {as bs : List α} (h : Known n as) (hs : bs ⊆ as) : Known n bs :=
  known_list.mpr fun b hb => known_list.mp h b (hs hb)

@[grind =] theorem known_reverse {as : List α} : Known n as.reverse ↔ Known n as where
  mp h := known_of_subset h fun _ ha => List.mem_reverse.mpr ha
  mpr h := known_of_subset h fun _ ha => List.mem_reverse.mp ha

@[grind ←] theorem known_take {as : List α} (h : Known n as) (i : Nat) : Known n (as.take i) :=
  known_of_subset h (List.take_subset i as)

@[grind ←] theorem known_drop {as : List α} (h : Known n as) (i : Nat) : Known n (as.drop i) :=
  known_of_subset h (List.drop_subset i as)

@[grind ←] theorem known_tail {as : List α} (h : Known n as) : Known n as.tail :=
  known_of_subset h fun _ => List.mem_of_mem_tail

/-- What is kept of a known list is known. -/
@[grind ←] theorem known_filter {as : List α} (h : Known n as) (p : α → Bool) :
    Known n (as.filter p) := known_of_subset h fun _ ha => (List.mem_filter.mp ha).1

omit [Refers α] in
/-- A list is known whose members are made one by one of something known. -/
@[grind ←] theorem known_map {as : List α} {f : α → β} (h : ∀ a ∈ as, Known n (f a)) :
    Known n (as.map f) :=
  known_list.mpr (List.forall_mem_map.mpr h)

@[grind ←] theorem known_zipIdx {as : List α} (h : Known n as) (i : Nat) :
    Known n (as.zipIdx i) :=
  known_list.mpr fun _ hp =>
    known_prod.mpr ⟨known_list.mp h _ (List.fst_mem_of_mem_zipIdx hp), known_plain n _⟩

omit [Refers α] in
@[grind ←] theorem known_filterMap {as : List α} {f : α → Option β}
    (h : ∀ a ∈ as, Known n (f a)) : Known n (as.filterMap f) := by
  refine known_list.mpr fun b hb => ?_
  obtain ⟨a, ha, hab⟩ := List.mem_filterMap.mp hb
  exact known_option.mp (h a ha) b hab

omit [Refers α] in
/-- Lists put end to end are known if each of them is. -/
@[grind ←] theorem known_flatMap {as : List α} {f : α → List β} (h : ∀ a ∈ as, Known n (f a)) :
    Known n (as.flatMap f) := by
  refine known_list.mpr fun b hb => ?_
  obtain ⟨a, ha, hb⟩ := List.mem_flatMap.mp hb
  exact known_list.mp (h a ha) b hb

@[grind ←] theorem known_flatten {as : List (List α)} (h : Known n as) : Known n as.flatten := by
  refine known_list.mpr fun a ha => ?_
  obtain ⟨l, hl, ha⟩ := List.mem_flatten.mp ha
  exact known_list.mp (known_list.mp h l hl) a ha

@[grind ←] theorem known_replicate {a : α} (h : Known n a) (k : Nat) :
    Known n (List.replicate k a) :=
  known_list.mpr fun _ hb => List.eq_of_mem_replicate hb ▸ h

/-- What is at some place in a known list is known. -/
@[grind ←] theorem known_list_getElem? {as : List α} (h : Known n as) (i : Nat) :
    Known n as[i]? :=
  known_option.mpr fun a ha => known_list.mp h a (List.mem_of_getElem? ha)

@[grind ←] theorem known_head? {as : List α} (h : Known n as) : Known n as.head? :=
  known_option.mpr fun a ha => known_list.mp h a (List.mem_of_head? ha)

@[grind ←] theorem known_getLast? {as : List α} (h : Known n as) : Known n as.getLast? :=
  known_option.mpr fun a ha => known_list.mp h a (List.mem_of_getLast? ha)

/-- What is found in a known list is known. -/
@[grind ←] theorem known_find? {as : List α} (h : Known n as) (p : α → Bool) :
    Known n (as.find? p) :=
  known_option.mpr fun a ha => known_list.mp h a (List.mem_of_find?_eq_some ha)

/-- An option with a default is known if both are. -/
@[grind ←] theorem known_getD {o : Option α} {a : α} (ho : Known n o) (ha : Known n a) :
    Known n (o.getD a) := by
  cases o with
  | none => exact ha
  | some b => exact ho

omit [Refers α] in
@[grind ←] theorem known_option_map {o : Option α} {f : α → β}
    (h : ∀ a, o = some a → Known n (f a)) : Known n (o.map f) := by
  cases o with
  | none => exact known_none
  | some a => exact h a rfl

/-- An array is known when all its members are. -/
theorem known_array {as : Array α} : Known n as ↔ ∀ a ∈ as, Known n a :=
  (@known_list _ _ n as.toList).trans (forall_congr' fun _ => imp_congr_left Array.mem_toList_iff)

/-- An array and the list of its members refer to the same. -/
@[grind =] theorem known_toList {as : Array α} : Known n as.toList ↔ Known n as := .rfl

@[grind =] theorem known_toArray {as : List α} : Known n as.toArray ↔ Known n as := .rfl

@[grind =] theorem known_array_append {as bs : Array α} :
    Known n (as ++ bs) ↔ Known n as ∧ Known n bs := by
  rw [← known_toList, Array.toList_append]
  exact known_append

/-- An array with one member more is known if that member is. -/
@[grind =] theorem known_push {as : Array α} {a : α} :
    Known n (as.push a) ↔ Known n as ∧ Known n a := by
  rw [← known_toList, Array.toList_push]
  exact known_append.trans (and_congr_right' (known_cons.trans (and_iff_left known_nil)))

@[grind ←] theorem known_array_pop {as : Array α} (h : Known n as) : Known n as.pop := by
  rw [← known_toList, Array.toList_pop]
  exact known_of_subset h (List.dropLast_sublist _).subset

@[grind =] theorem known_array_reverse {as : Array α} : Known n as.reverse ↔ Known n as := by
  rw [← known_toList, Array.toList_reverse]
  exact known_reverse

@[grind ←] theorem known_extract {as : Array α} (h : Known n as) (i j : Nat) :
    Known n (as.extract i j) := by
  rw [← known_toList, Array.toList_extract]
  exact known_take (known_drop h i) _

@[grind ←] theorem known_array_replicate {a : α} (h : Known n a) (k : Nat) :
    Known n (Array.replicate k a) := by
  rw [← known_toList, Array.toList_replicate]
  exact known_replicate h k

/-- A known array in which something known is put stays known. -/
@[grind ←] theorem known_setIfInBounds {as : Array α} {a : α} (h : Known n as) (ha : Known n a)
    (i : Nat) : Known n (as.setIfInBounds i a) := by
  refine known_array.mpr fun b hb => ?_
  rcases Array.mem_or_eq_of_mem_setIfInBounds hb with hb | rfl
  · exact known_array.mp h b hb
  · exact ha

/-- What is at some place in a known array is known. -/
@[grind ←] theorem known_getElem? {as : Array α} (h : Known n as) (i : Nat) : Known n as[i]? :=
  known_option.mpr fun a ha => known_array.mp h a (Array.mem_of_getElem? ha)

@[grind ←] theorem known_getElem {as : Array α} (h : Known n as) (i : Nat) (hi : i < as.size) :
    Known n as[i] := known_array.mp h _ (Array.getElem_mem hi)

@[grind ←] theorem known_getInternal {as : Array α} (h : Known n as) (i : Nat)
    (hi : i < as.size) : Known n (as.getInternal i hi) := known_getElem h i hi

@[grind ←] theorem known_back? {as : Array α} (h : Known n as) : Known n as.back? := by
  rw [Array.back?_eq_getElem?]
  exact known_getElem? h _

variable {κ : Type} [DecidableEq κ] [Refers κ] {d : OrderedMap κ α}

/-- What a known dictionary holds under some key is known. -/
@[grind ←] theorem known_get? (h : Known n d) (k : κ) : Known n (d.get? k) := by
  induction d with
  | nil => exact known_none
  | cons p d ih =>
    obtain ⟨l, a⟩ := p
    have h := known_cons.mp h
    unfold OrderedMap.get?
    split
    · exact known_some.mpr (known_pair.mp h.1).2
    · exact ih h.2

@[grind →] theorem known_of_get? (h : Known n d) {k : κ} {a : α} (ha : d.get? k = some a) :
    Known n a := known_option.mp (known_get? h k) a ha

/-- A known dictionary stays known when something known is put into it. -/
@[grind ←] theorem known_set [Refers.Plain κ] {a : α} (h : Known n d) (ha : Known n a) (k : κ) :
    Known n (d.set k a) := by
  induction d with
  | nil => exact known_cons.mpr ⟨known_pair.mpr ⟨known_plain n k, ha⟩, known_nil⟩
  | cons p d ih =>
    obtain ⟨l, b⟩ := p
    have h := known_cons.mp h
    unfold OrderedMap.set
    split
    · exact known_cons.mpr ⟨known_pair.mpr ⟨known_plain n k, ha⟩, h.2⟩
    · exact known_cons.mpr ⟨h.1, ih h.2⟩

@[grind ←] theorem known_erase (h : Known n d) (k : κ) : Known n (d.erase k) := by
  induction d with
  | nil => exact h
  | cons p d ih =>
    have h := known_cons.mp h
    unfold OrderedMap.erase
    split
    · exact h.2
    · exact known_cons.mpr ⟨h.1, ih h.2⟩

omit [DecidableEq κ] in
/-- The values of a known dictionary are known. -/
@[grind ←] theorem known_values (h : Known n d) : Known n d.values :=
  known_map fun p hp => (known_prod.mp (known_list.mp h p hp)).2

@[grind ←] theorem known_ofList [Refers.Plain κ] {ps : List (κ × α)} (h : Known n ps) :
    Known n (OrderedMap.ofList ps) := by
  suffices h' : ∀ d : OrderedMap κ α, Known n d →
      Known n (ps.foldl (fun d p => d.set p.1 p.2) d) from
    h' [] known_nil
  induction ps with
  | nil => exact fun d hd => hd
  | cons p ps ih =>
    have h := known_cons.mp h
    exact fun d hd => ih h.2 _ (known_set hd (known_prod.mp h.1).2 p.1)

end

/-! ### Values, objects and scopes -/

instance : Refers Value := ⟨fun v => refs v.ref?⟩

def Slot.refs : Slot → List Ref
  | .value v => Refers.refs v
  | .accessor getter setter => Refers.refs getter ++ Refers.refs setter

instance : Refers Slot := ⟨Slot.refs⟩

instance : Refers Closure := ⟨fun c => refs c.home⟩

def Native.refs : Native → List Ref
  | .bound target this args => target :: (Refers.refs this ++ Refers.refs args)
  | _ => []

instance : Refers Native := ⟨Native.refs⟩

def Content.refs : Content → List Ref
  | .array elements => Refers.refs elements
  | .map entries => Refers.refs entries
  | .set entries => Refers.refs entries
  | .closure c => Refers.refs c
  | .native _ f => Refers.refs f
  | .plain | .date _ => []

instance : Refers Content := ⟨Content.refs⟩

instance : Refers Object := ⟨fun o => refs o.proto ++ (refs o.properties ++ refs o.content)⟩

instance : Refers Heap := ⟨fun h => refs h.objects⟩

section

variable {n : Horizon} {v : Value} {o : Object} {h : Heap}

/-- A value that is an object is known when its reference is. -/
@[grind ←] theorem known_undefined : Known n Value.undefined := known_of_refs rfl
@[grind ←] theorem known_null : Known n Value.null := known_of_refs rfl
@[grind ←] theorem known_bool (b : Bool) : Known n (Value.bool b) := known_of_refs rfl
@[grind ←] theorem known_number (x : Float) : Known n (Value.number x) := known_of_refs rfl
@[grind ←] theorem known_text (t : Text) : Known n (Value.text t) := known_of_refs rfl
@[grind ←] theorem known_ofString (s : String) : Known n (Value.ofString s) := known_of_refs rfl
@[grind =] theorem known_object {r : Ref} : Known n (Value.object r) ↔ Known n r := .rfl
@[grind ←] theorem known_ref? (hv : Known n v) : Known n v.ref? := hv

@[grind =] theorem known_value : Known n (Slot.value v) ↔ Known n v := .rfl

/-- An accessor is known when its two functions are. -/
@[grind =] theorem known_accessor {getter setter : Option Ref} :
    Known n (Slot.accessor getter setter) ↔ Known n getter ∧ Known n setter :=
  List.forall_mem_append

/-- A closure refers to its home object alone; its scope is no object. -/
@[grind =] theorem known_closure {c : Closure} : Known n c ↔ Known n c.home := .rfl

/-- A bound function keeps its target, its receiver and its first arguments. -/
@[grind =] theorem known_bound {target : Ref} {this : Value} {args : List Value} :
    Known n (Native.bound target this args) ↔
      Known n target ∧ Known n this ∧ Known n args :=
  List.forall_mem_cons.trans (and_congr known_ref.symm List.forall_mem_append)

/-- The content of an array is known when its elements are. -/
@[grind ←] theorem known_content_plain : Known n Content.plain := known_of_refs rfl
@[grind ←] theorem known_content_date (x : Float) : Known n (Content.date x) := known_of_refs rfl
@[grind =] theorem known_content_array {es : Array Value} :
    Known n (Content.array es) ↔ Known n es := .rfl
/-- A map is known when its keys and values are. -/
@[grind =] theorem known_content_map {es : OrderedMap Key (Value × Value)} :
    Known n (Content.map es) ↔ Known n es := .rfl
@[grind =] theorem known_content_set {es : OrderedMap Key Value} :
    Known n (Content.set es) ↔ Known n es := .rfl
@[grind =] theorem known_content_closure {c : Closure} :
    Known n (Content.closure c) ↔ Known n c := .rfl
@[grind =] theorem known_content_native {t : Text} {f : Native} :
    Known n (Content.native t f) ↔ Known n f := .rfl

/-- An object refers to what its link, its properties and its content refer to. -/
theorem known_object_iff :
    Known n o ↔ Known n o.proto ∧ Known n o.properties ∧ Known n o.content :=
  List.forall_mem_append.trans (and_congr_right' List.forall_mem_append)

@[grind =] theorem known_mk {proto : Option Ref} {isError frozen : Bool}
    {properties : OrderedMap Text Slot} {content : Content} :
    Known n (Object.mk proto isError frozen properties content) ↔
      Known n proto ∧ Known n properties ∧ Known n content := known_object_iff

/-- The link of a known object is known. -/
@[grind →, grind ←] theorem Known.proto (ho : Known n o) : Known n o.proto :=
  (known_object_iff.mp ho).1
@[grind →, grind ←] theorem Known.properties (ho : Known n o) : Known n o.properties :=
  (known_object_iff.mp ho).2.1
@[grind →, grind ←] theorem Known.content (ho : Known n o) : Known n o.content :=
  (known_object_iff.mp ho).2.2

/-- The elements of a known object are known, if it has any. -/
@[grind ←] theorem Known.elements (ho : Known n o) : Known n o.elements := by
  obtain ⟨proto, isError, frozen, properties, content⟩ := o
  cases content with
  | array es => exact (known_mk.mp ho).2.2
  | _ => exact known_of_refs rfl

/-- A heap is known when all its objects are. -/
theorem known_heap : Known n h ↔ ∀ o ∈ h.objects, Known n o := known_array

/-- What a known heap has at a reference is known, made or not. -/
@[grind ←] theorem Known.get (hh : Known n h) (r : Ref) : Known n (h.get r) := by
  unfold Heap.get
  rw [Array.getD_eq_getD_getElem?]
  exact known_getD (known_getElem? hh r.index) (known_of_refs rfl)

/-- What comes of asking the objects of a chain is known if every answer is. -/
theorem known_climb {α : Type} [Refers α] {ask : Ref → Option α} {otherwise : α}
    (hask : ∀ r, Known n (ask r)) (hotherwise : Known n otherwise) (k : Nat) (r : Option Ref) :
    Known n (h.climb ask otherwise k r) := by
  fun_induction Heap.climb h ask otherwise k r with
  | case1 => exact hotherwise
  | case2 => exact hotherwise
  | case3 k r a ha => exact known_option.mp (hask r) a ha
  | case4 k r ha ih => exact ih

/-- A slot found along the chain of a known heap is known. -/
@[grind ←] theorem Known.lookup (hh : Known n h) (k : Text) (r : Ref) :
    Known n (h.lookup k r) := by
  refine known_climb (α := Option Slot) (fun q => ?_) known_none _ _
  exact known_option_map fun s hs => known_of_get? (hh.get q).properties hs

@[grind →] theorem Known.of_lookup (hh : Known n h) {k : Text} {r : Ref} {s : Slot}
    (hs : h.lookup k r = some s) : Known n s := known_option.mp (hh.lookup k r) s hs

end

instance : Refers Binding := ⟨fun b => refs b.value⟩

instance : Refers Scope :=
  ⟨fun s => refs s.bindings ++ (refs s.this ++ (refs s.function ++ (refs s.home ++
    refs s.newTarget)))⟩

instance : Refers Scopes := ⟨fun s => refs s.all⟩

section

variable {n : Horizon} {s : Scope} {scopes : Scopes}

/-- A binding is known when its value is. -/
@[grind =] theorem known_binding {b : Binding} : Known n b ↔ Known n b.value := .rfl

/-- A scope refers to what its bindings and its four own references refer to. -/
theorem known_scope : Known n s ↔ Known n s.bindings ∧ Known n s.this ∧ Known n s.function ∧
    Known n s.home ∧ Known n s.newTarget :=
  List.forall_mem_append.trans <| and_congr_right' <| List.forall_mem_append.trans <|
    and_congr_right' <| List.forall_mem_append.trans <| and_congr_right' List.forall_mem_append

@[grind =] theorem known_scope_mk {parent : Option ScopeRef} {bindings : OrderedMap String Binding}
    {hasThis : Bool} {this : Option Value} {function home newTarget : Option Ref} :
    Known n (Scope.mk parent bindings hasThis this function home newTarget) ↔
      Known n bindings ∧ Known n this ∧ Known n function ∧ Known n home ∧ Known n newTarget :=
  known_scope

/-- The bindings of a known scope are known. -/
@[grind →, grind ←] theorem Known.bindings (hs : Known n s) : Known n s.bindings :=
  (known_scope.mp hs).1
@[grind →, grind ←] theorem Known.this (hs : Known n s) : Known n s.this := (known_scope.mp hs).2.1
@[grind →, grind ←] theorem Known.function (hs : Known n s) : Known n s.function :=
  (known_scope.mp hs).2.2.1
@[grind →, grind ←] theorem Known.home (hs : Known n s) : Known n s.home :=
  (known_scope.mp hs).2.2.2.1
@[grind →, grind ←] theorem Known.newTarget (hs : Known n s) : Known n s.newTarget :=
  (known_scope.mp hs).2.2.2.2

/-- Each scope among known scopes is known. -/
@[grind ←] theorem Known.scope (hs : Known n scopes) (e : ScopeRef) : Known n (scopes.get e) := by
  unfold Scopes.get
  rw [Array.getD_eq_getD_getElem?]
  exact known_getD (known_getElem? (show Known n scopes.all from hs) e.index) (known_of_refs rfl)

end

end Stepper.Machine
