import Stepper.Builtin.Realm
import Stepper.Proofs.Grounding.Action

/-!
What is in place before a program runs is grounded. Each step of putting it in place keeps the heap
grounded and takes nothing away; what it is given is there before, what it gives is there after.
-/
namespace Stepper.Builtin

open Machine

variable {α β : Type} {n : Horizon} {h : Heap}

/-- The heap is grounded, and what is known is there. -/
structure Stands (n : Horizon) (h : Heap) : Prop where
  later : Later n ⟨h.objects.size, []⟩
  grounded : World.Grounded [] { heap := h }

/-- What stands over a later horizon stands over an earlier one. -/
theorem Stands.mono {m : Horizon} (hh : Stands m h) (hm : Later n m) : Stands n h :=
  ⟨hm.trans hh.later, hh.grounded⟩

/-- What is made last is known in the heap that is left. -/
def Made [Refers α] (n : Horizon) (x : α × Heap) : Prop :=
  ∃ m, Later n m ∧ Stands m x.2 ∧ Known m x.1

theorem Made.mono [Refers α] {m : Horizon} {x : α × Heap} (hx : Made m x) (h : Later n m) : Made n x :=
  let ⟨k, hk, hh, ha⟩ := hx
  ⟨k, h.trans hk, hh, ha⟩

/-- What was made is known at some later horizon. -/
@[elab_as_elim]
theorem Made.elim [Refers α] {motive : α × Heap → Prop} {x : α × Heap} (hx : Made n x)
    (h : ∀ m a h, Later n m → Stands m h → Known m a → motive (a, h)) : motive x :=
  let ⟨m, hm, hh, ha⟩ := hx
  h m x.1 x.2 hm hh ha

theorem refs_ref (r : Ref) : refs r = [r] := rfl

/-- An object that refers to what is known may be made. -/
theorem made_alloc {o : Object} (hh : Stands n h) (ho : Known n o) : Made n (h.alloc o) := by
  have hsize : (h.alloc o).2.objects.size = h.objects.size + 1 := Array.size_push o
  refine ⟨⟨h.objects.size + 1, []⟩, hh.later.trans (.of_le (Nat.le_succ _)), ⟨hsize ▸ .refl _, ?_⟩, ?_⟩
  · exact hh.grounded.alloc (ho.mono hh.later)
  · exact known_ref.mpr ⟨Nat.lt_succ_self _, nofun⟩

/-- An object may be changed if its link stays and nothing unknown is brought in. -/
theorem stands_modify {f : Object → Object} (hh : Stands n h)
    (hf : ∀ m o, Later n m → Known m o → Known m (f o)) (hp : ∀ o, (f o).proto = o.proto) (r : Ref) :
    Stands n (h.modify r f) where
  later := (Array.size_modify : (h.modify r f).objects.size = _) ▸ hh.later
  grounded := hh.grounded.modify (fun o ho => hf _ o hh.later ho) hp r

theorem stands_setSlot {s : Slot} (hh : Stands n h) (hs : Known n s) (r : Ref) (k : Text) :
    Stands n (h.modify r fun o => { o with properties := o.properties.set k s }) :=
  stands_modify hh (fun _ _ hm ho =>
    known_mk.mpr ⟨ho.proto, known_set ho.properties (hs.mono hm) k, ho.content⟩) (fun _ => rfl) r

/-- A known value may be put under a name. -/
theorem stands_put {v : Value} (hh : Stands n h) (hv : Known n v) (r : Ref) (name : String) :
    Stands n (put h r name v) := stands_setSlot hh (known_value.mpr hv) r _

/-- A native function is made with a known prototype. -/
theorem made_addNative {proto : Ref} {f : Native} (hh : Stands n h) (hproto : Known n proto)
    (hf : Known n f) (name : String) : Made n (addNative h proto name f) :=
  made_alloc hh (known_mk.mpr ⟨known_some.mpr hproto, known_nil, hf⟩)

variable {objectProto functionProto : Ref}

/-- A table of functions is installed one after the other. -/
theorem stands_install {t : Table} (hh : Stands n h) (hfunction : Known n functionProto)
    (ht : Known n t) (target : Ref) : Stands n (install h functionProto target t) := by
  refine List.foldlRecOn t _ hh fun h hh p hp => ?_
  have hnative : Known n p.2 := (known_prod.mp (known_list.mp ht p hp)).2
  obtain ⟨m, hm, hh, hr⟩ := made_addNative hh hfunction hnative p.1
  exact (stands_put hh hr target p.1).mono hm

theorem stands_installNumbers (hh : Stands n h) (target : Ref) (t : List (String × Nat)) :
    Stands n (installNumbers h target t) :=
  List.foldlRecOn t _ hh fun _ hh p _ => stands_put hh (known_number _) target p.1

/-- A prototype is made with its functions. -/
theorem made_addPrototype {t : Table} (hh : Stands n h) (hobject : Known n objectProto)
    (hfunction : Known n functionProto) (ht : Known n t) :
    Made n (addPrototype h objectProto functionProto t) := by
  obtain ⟨m, hm, hh, hr⟩ := made_alloc hh
    (o := { proto := some objectProto }) (known_mk.mpr ⟨hobject, known_nil, known_content_plain⟩)
  exact ⟨m, hm, stands_install hh (hfunction.mono hm) (ht.mono hm) _, hr⟩

/-- A constructor and its prototype refer to each other by properties, not by links. -/
theorem made_addConstructor {parent proto : Ref} {t : Table} (hh : Stands n h)
    (hfunction : Known n functionProto) (hparent : Known n parent) (c : Constructor)
    (hproto : Known n proto) (ht : Known n t) :
    Made n (addConstructor h functionProto parent c proto t) := by
  obtain ⟨m, hm, hh, hr⟩ := made_addNative hh hparent (f := .constructor c) (known_of_refs rfl) c.name
  exact ⟨m, hm, stands_install (stands_put (stands_put hh (hproto.mono hm) _ _) hr _ _)
    (hfunction.mono hm) (ht.mono hm) _, hr⟩

/-- A namespace is made with its functions and numbers. -/
theorem made_addNamespace {t : Table} (hh : Stands n h) (hobject : Known n objectProto)
    (hfunction : Known n functionProto) (ht : Known n t) (numbers : List (String × Nat)) :
    Made n (addNamespace h objectProto functionProto t numbers) := by
  obtain ⟨m, hm, hh, hr⟩ := made_alloc hh
    (o := { proto := some objectProto }) (known_mk.mpr ⟨hobject, known_nil, known_content_plain⟩)
  exact ⟨m, hm, stands_installNumbers (stands_install hh (hfunction.mono hm) (ht.mono hm) _) _ _, hr⟩

theorem stands_putSize {f : Native} (hh : Stands n h) (hfunction : Known n functionProto)
    (hf : Known n f) (target : Ref) : Stands n (putSize h functionProto target f) := by
  obtain ⟨m, hm, hh, hr⟩ := made_addNative hh hfunction hf "size"
  exact (stands_setSlot hh (known_accessor.mpr ⟨hr, known_none⟩) target _).mono hm

/-- An error constructor extends the one that was made first. -/
theorem made_addError {base : Option (Ref × Ref)} (hh : Stands n h) (hobject : Known n objectProto)
    (hfunction : Known n functionProto) (hbase : Known n base) (kind : ErrorKind) :
    Made n (addError h objectProto functionProto base kind) := by
  have hparents : Known n (base.getD (functionProto, objectProto)) :=
    known_getD hbase (known_pair.mpr ⟨hfunction, hobject⟩)
  obtain ⟨hparent, hproto⟩ := known_prod.mp hparents
  obtain ⟨m, hm, hh, hr⟩ := made_alloc hh (o := ⟨_, true, false, [], .plain⟩)
    (known_mk.mpr ⟨known_some.mpr hproto, known_nil, known_content_plain⟩)
  have hh := stands_put hh (known_ofString kind.name) ⟨h.objects.size⟩ "name"
  have hh := stands_put hh (known_text []) ⟨h.objects.size⟩ "message"
  obtain ⟨k, hk, hh, hc⟩ := made_addConstructor hh (hfunction.mono hm) (hparent.mono hm)
    (.error kind) hr known_nil
  exact ⟨k, hm.trans hk, hh, known_pair.mpr ⟨hc, hr.mono hk⟩⟩

/-- Goes on with the elements of a list, of which each adds to what is made. -/
theorem made_foldl [Refers β] {f : β × Heap → α → β × Heap} {as : List α} {x : β × Heap}
    (hx : Made n x) (hf : ∀ m b h, Later n m → Stands m h → Known m b → ∀ a ∈ as,
      Made m (f (b, h) a)) : Made n (as.foldl f x) := by
  refine List.foldlRecOn as f hx fun x hx a ha => ?_
  obtain ⟨m, hm, hh, hb⟩ := hx
  exact Made.mono (hf m x.1 x.2 hm hh hb a ha) hm

/-- All errors are made over one base. -/
theorem made_addErrors (hh : Stands n h) (hobject : Known n objectProto)
    (hfunction : Known n functionProto) : Made n (addErrors h objectProto functionProto) := by
  unfold addErrors
  refine Made.elim (made_addError hh hobject hfunction known_none .error) fun m base h hm hh hb => ?_
  have hfirst : Made m ([(ErrorKind.error, base.1)], h) :=
    ⟨m, .refl m, hh, by grind⟩
  dsimp only
  generalize hx : List.foldl _ _ _ = x
  have hmade : Made m x := by
    rw [← hx]
    refine made_foldl hfirst fun m errors h hm hh he kind _ => ?_
    refine Made.elim (made_addError hh (n := m) ?_ ?_ ?_ kind) fun k r h hk hh hr => ?_
    · grind
    · grind
    · exact known_some.mpr (by grind)
    · exact ⟨k, hk, hh, by grind⟩
  refine Made.elim hmade fun k errors h hk hh he => ?_
  refine Made.elim (made_addNative hh (n := k) ?_ ?_ _) fun l f h hl hh hf => ?_
  · grind
  · exact known_of_refs rfl
  · exact ⟨l, by grind, stands_put hh hf .., by grind⟩

/-- The heap while all that is in place is being made: some objects are known there, and the
prototypes of objects and functions are. -/
structure Underway (objectProto functionProto : Ref) (rs : List Ref) (n : Horizon) (h : Heap) : Prop where
  stands : Stands n h
  object : Known n objectProto
  function : Known n functionProto
  others : ∀ r ∈ rs, Known n r

namespace Underway

variable {rs : List Ref} (hs : Underway objectProto functionProto rs n h)

include hs

/-- What is made next is known from then on. -/
@[elab_as_elim]
theorem next [Refers α] {motive : α × Heap → Prop} {x : α × Heap} (hx : Made n x)
    (hnext : ∀ m a h, Underway objectProto functionProto (refs a ++ rs) m h → motive (a, h)) :
    motive x :=
  hx.elim fun m a h hm hh ha => hnext m a h
    { stands := hh
      object := hs.object.mono hm
      function := hs.function.mono hm
      others := fun r hr => (List.mem_append.mp hr).elim (fun hr => known_ref.mpr (ha r hr))
        fun hr => (hs.others r hr).mono hm }

theorem install (t : Table) (ht : refs t = []) (target : Ref) :
    Underway objectProto functionProto rs n (install h functionProto target t) :=
  { hs with stands := stands_install hs.stands hs.function (known_of_refs ht) target }

theorem installNumbers (target : Ref) (t : List (String × Nat)) :
    Underway objectProto functionProto rs n (installNumbers h target t) :=
  { hs with stands := stands_installNumbers hs.stands target t }

theorem putSize (target : Ref) (f : Native) (hf : refs f = []) :
    Underway objectProto functionProto rs n (putSize h functionProto target f) :=
  { hs with stands := stands_putSize hs.stands hs.function (known_of_refs hf) target }

theorem addPrototype (t : Table) (ht : refs t = []) :
    Made n (addPrototype h objectProto functionProto t) :=
  made_addPrototype hs.stands hs.object hs.function (known_of_refs ht)

theorem addConstructor (c : Constructor) {proto : Ref} (hproto : Known n proto) (t : Table)
    (ht : refs t = []) : Made n (addConstructor h functionProto functionProto c proto t) :=
  made_addConstructor hs.stands hs.function hs.function c hproto (known_of_refs ht)

theorem addNamespace (t : Table) (ht : refs t = []) (numbers : List (String × Nat)) :
    Made n (addNamespace h objectProto functionProto t numbers) :=
  made_addNamespace hs.stands hs.object hs.function (known_of_refs ht) numbers

end Underway

/-- All that is in place is known there. -/
structure Setting.Grounded (s : Setting) (n : Horizon) : Prop where
  stands : Stands n s.heap
  realm : Known n s.realm
  globals : Known n s.globals

attribute [local irreducible] install installNumbers putSize addPrototype addConstructor
  addNamespace addErrors addNative in
/-- The standard library is grounded at some horizon. -/
theorem grounded_setting : ∃ n, setting.Grounded n := by
  have hempty : Stands ⟨0, []⟩ {} :=
    ⟨.refl _, nofun, known_of_refs rfl, known_of_refs rfl, ⟨fun _ => ⟨_, fun _ hp => by cases hp⟩⟩⟩
  unfold setting
  refine Made.elim (made_alloc hempty (o := {}) (known_of_refs rfl)) fun n objectProto h _ hh ho => ?_
  dsimp only
  refine Made.elim (made_alloc hh (o := { proto := some objectProto }) ?_)
    fun n functionProto h hn hh hf => ?_
  · exact known_mk.mpr ⟨known_some.mpr ho, known_nil, known_content_plain⟩
  dsimp only
  have hs : Underway objectProto functionProto [] n h := ⟨hh, ho.mono hn, hf, nofun⟩
  replace hs := hs.install objectMethods rfl objectProto
  replace hs := hs.install functionMethods rfl functionProto
  refine hs.next (hs.addPrototype arrayMethods rfl) fun n array h hs => ?_
  dsimp only
  refine hs.next (hs.addPrototype textMethods rfl) fun n text h hs => ?_
  dsimp only
  refine hs.next (hs.addPrototype numberMethods rfl) fun n number h hs => ?_
  dsimp only
  refine hs.next (hs.addPrototype booleanMethods rfl) fun n boolean h hs => ?_
  dsimp only
  refine hs.next (hs.addPrototype mapMethods rfl) fun n map h hs => ?_
  dsimp only
  refine hs.next (hs.addPrototype setMethods rfl) fun n set h hs => ?_
  dsimp only
  refine hs.next (hs.addPrototype dateMethods rfl) fun n date h hs => ?_
  dsimp only
  replace hs := hs.putSize map (.map .size) rfl
  replace hs := hs.putSize set (.set .size) rfl
  refine hs.next (made_addErrors hs.stands hs.object hs.function) fun n errors h hs => ?_
  dsimp only
  refine hs.next (hs.addConstructor .object hs.object objectStatics rfl) fun n object h hs => ?_
  dsimp only
  refine hs.next (hs.addConstructor .function hs.function [] rfl) fun n function h hs => ?_
  dsimp only
  have harray := hs.others array (by simp [refs])
  refine hs.next (hs.addConstructor .array harray arrayStatics rfl) fun n arrays h hs => ?_
  dsimp only
  have htext := hs.others text (by simp [refs])
  refine hs.next (hs.addConstructor .string htext textStatics rfl) fun n texts h hs => ?_
  dsimp only
  have hnumber := hs.others number (by simp [refs])
  refine hs.next (hs.addConstructor .number hnumber numberStatics rfl) fun n numbers h hs => ?_
  dsimp only
  replace hs := hs.installNumbers numbers numberConstants
  have hboolean := hs.others boolean (by simp [refs])
  refine hs.next (hs.addConstructor .boolean hboolean [] rfl) fun n booleans h hs => ?_
  dsimp only
  have hmap := hs.others map (by simp [refs])
  refine hs.next (hs.addConstructor .map hmap [] rfl) fun n maps h hs => ?_
  dsimp only
  have hset := hs.others set (by simp [refs])
  refine hs.next (hs.addConstructor .set hset [] rfl) fun n sets h hs => ?_
  dsimp only
  have hdate := hs.others date (by simp [refs])
  refine hs.next (hs.addConstructor .date hdate dateStatics rfl) fun n dates h hs => ?_
  dsimp only
  refine hs.next (hs.addNamespace mathFunctions rfl mathConstants) fun n math h hs => ?_
  dsimp only
  refine hs.next (hs.addNamespace jsonFunctions rfl []) fun n json h hs => ?_
  dsimp only
  generalize hx : List.foldl _ _ _ = x
  have hmade : Made n x := by
    rw [← hx]
    refine made_foldl ⟨n, .refl n, hs.stands, known_nil⟩ fun m fs h hm hh hfs p hp => ?_
    have htable : Known m globalTable := known_of_refs rfl
    refine Made.elim (made_addNative hh (hs.function.mono hm)
      (known_prod.mp (known_list.mp htable p hp)).2 p.1) fun l r h hl hh hr => ?_
    have hlast : Known l [(p.1, Value.object r)] :=
      known_cons.mpr ⟨known_pair.mpr ⟨known_plain l p.1, hr⟩, known_nil⟩
    exact ⟨l, hl, hh, known_append.mpr ⟨hfs.mono hl, hlast⟩⟩
  refine hs.next hmade fun n functions h hs => ?_
  have herrors : Known n errors := fun r hr => known_ref.mp (hs.others r (by simp [hr]))
  have hfunctions : Known n functions := fun r hr => known_ref.mp (hs.others r (by simp [hr]))
  have hnamed : Known n (errors.map fun p => (p.1.name, Value.object p.2)) :=
    known_map fun p hp => known_pair.mpr
      ⟨known_plain n p.1.name, (known_prod.mp (known_list.mp herrors p hp)).2⟩
  obtain ⟨hstands, hobject, hfunction, hothers⟩ := hs
  simp only [refs_ref, List.mem_append, List.mem_singleton, or_imp, forall_and, forall_eq] at hothers
  obtain ⟨-, hjson, hmath, hdates, hsets, hmaps, hbooleans, hnumbers, htexts, harrays, hfunctionOf,
    hobjectOf, -, hdate, hset, hmap, hboolean, hnumber, htext, harray, -⟩ := hothers
  refine ⟨n, hstands, ?_, known_append.mpr ⟨known_append.mpr ⟨?_, hnamed⟩, hfunctions⟩⟩
  · exact known_realm.mpr ⟨hobject, hfunction, harray, htext, hnumber, hboolean, hmap, hset, hdate,
      herrors⟩
  · have hname (s : String) : Known n s := known_plain n s
    simp [known_cons, known_pair, known_object, known_number, known_nil, *]

end Stepper.Builtin
