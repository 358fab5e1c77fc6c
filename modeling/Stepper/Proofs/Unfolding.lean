import Stepper.Proofs.Ordering
import Stepper.Proofs.Written
import Mathlib.Data.List.Perm.Subperm

/-!
What is captured of a value. A captured value is its unfolding: each object is shown in full where
it is met, but for an object on the way from the root to itself. The way is as good as a set of
marks, each set before the inside of an object is shown and taken away after that, whatever became
of it. Since a way never meets an object twice, every unfolding ends, with cycles or without, and
two frames for each object there is are enough to get there.
-/
namespace Stepper.Machine

open Json Builtin

namespace Heap

/-! ### Unfoldings -/

/-- The data properties of an object under some of its keys. -/
def fieldsAt (o : Object) (ks : List Text) : List (Text × Value) :=
  ks.filterMap fun k => match o.properties.get? k with
    | some (.value v) => some (k, v)
    | _ => none

/-- A dictionary entry with the label of what its key is shown as. -/
def labelled (p : Tree × Tree) : Text × Tree := (label p.1, p.2)

mutual

/-- What a value unfolds to below the objects of a path. -/
inductive Unfolds (h : Heap) : List Ref → Value → Tree → Prop where
  | undefined {path : List Ref} : Unfolds h path .undefined .null
  | null {path : List Ref} : Unfolds h path .null .null
  | bool {path : List Ref} (b : Bool) : Unfolds h path (.bool b) (.bool b)
  | number {path : List Ref} (x : Float) : Unfolds h path (.number x) (exportNumber x)
  | text {path : List Ref} (t : Text) : Unfolds h path (.text t) (.text t)
  | function {path : List Ref} {r : Ref} (hr : (h.get r).isCallable = true) :
      Unfolds h path (.object r) (.text (functionLabel (h.get r)))
  | circular {path : List Ref} {r : Ref} (hr : (h.get r).isCallable = false) (hpath : r ∈ path) :
      Unfolds h path (.object r) (.text "[Circular]")
  | opened {path : List Ref} {r : Ref} {t : Tree} (hr : (h.get r).isCallable = false)
      (hpath : r ∉ path) (ht : Holds h (r :: path) (h.get r) (h.get r).content t) :
      Unfolds h path (.object r) t

/-- What an object of some content holds, below the objects of a path that it is on. -/
inductive Holds (h : Heap) : List Ref → Object → Content → Tree → Prop where
  | array {path : List Ref} {o : Object} {es : Array Value} {ts : List Tree}
      (hts : UnfoldAll h path es.toList ts) : Holds h path o (.array es) (.list ts)
  | set {path : List Ref} {o : Object} {entries : OrderedMap Key Value} {ts : List Tree}
      (hts : UnfoldAll h path entries.values ts) : Holds h path o (.set entries) (.list ts)
  /-- Entries with equal labels are one field, in the place of the first and with the last value. -/
  | map {path : List Ref} {o : Object} {entries : OrderedMap Key (Value × Value)}
      {ks vs : List Tree} (hks : UnfoldAll h path (entries.values.map Prod.fst) ks)
      (hvs : UnfoldAll h path (entries.values.map Prod.snd) vs) :
      Holds h path o (.map entries) (.object (OrderedMap.ofList ((ks.zip vs).map labelled)))
  | plain {path : List Ref} {o : Object} {ks : List Text} {ts : List Tree}
      (hks : o.ownKeys = .ok ks) (hts : UnfoldAll h path ((fieldsAt o ks).map Prod.snd) ts) :
      Holds h path o .plain (.object (((fieldsAt o ks).map Prod.fst).zip ts))
  | date {path : List Ref} {o : Object} {time : Float} {ks : List Text} {ts : List Tree}
      (hks : o.ownKeys = .ok ks) (hts : UnfoldAll h path ((fieldsAt o ks).map Prod.snd) ts) :
      Holds h path o (.date time) (.object (((fieldsAt o ks).map Prod.fst).zip ts))

/-- What values unfold to, one by one. -/
inductive UnfoldAll (h : Heap) : List Ref → List Value → List Tree → Prop where
  | nil {path : List Ref} : UnfoldAll h path [] []
  | cons {path : List Ref} {v : Value} {t : Tree} {vs : List Value} {ts : List Tree}
      (hv : Unfolds h path v t) (hvs : UnfoldAll h path vs ts) :
      UnfoldAll h path (v :: vs) (t :: ts)

end

section

variable {h : Heap} {path : List Ref}

theorem mapM_iff {f : Value → Except Fault Tree} (hf : ∀ v t, f v = .ok t ↔ h.Unfolds path v t)
    {vs : List Value} {ts : List Tree} : vs.mapM f = .ok ts ↔ h.UnfoldAll path vs ts := by
  induction vs generalizing ts with
  | nil =>
    refine ⟨fun hts => ?_, fun hts => ?_⟩
    · cases hts
      exact .nil
    · cases hts
      rfl
  | cons v vs ih =>
    rw [List.mapM_cons]
    refine ⟨fun hts => ?_, fun hts => ?_⟩
    · obtain ⟨t, ht, hts⟩ := exists_of_bind hts
      obtain ⟨us, hus, hts⟩ := exists_of_bind hts
      cases hts
      exact .cons ((hf v t).mp ht) (ih.mp hus)
    · cases hts with
      | cons hv hvs =>
        rw [(hf _ _).mpr hv, ih.mpr hvs]
        rfl

/-- To show keys and values entry by entry is to show the keys and the values. -/
theorem mapM_entries_iff {f : Value → Except Fault Tree}
    (hf : ∀ v t, f v = .ok t ↔ h.Unfolds path v t) {ps : List (Value × Value)}
    {fields : List (Text × Tree)} :
    ps.mapM (fun p => do return (label (← f p.1), ← f p.2)) = .ok fields ↔
      ∃ ks vs, h.UnfoldAll path (ps.map Prod.fst) ks ∧ h.UnfoldAll path (ps.map Prod.snd) vs ∧
        fields = (ks.zip vs).map labelled := by
  induction ps generalizing fields with
  | nil =>
    refine ⟨fun hfields => ?_, fun ⟨ks, vs, hks, hvs, hfields⟩ => ?_⟩
    · cases hfields
      exact ⟨[], [], .nil, .nil, rfl⟩
    · cases hks
      rw [hfields]
      rfl
  | cons p ps ih =>
    rw [List.mapM_cons]
    refine ⟨fun hfields => ?_, fun ⟨ks, vs, hks, hvs, hfields⟩ => ?_⟩
    · obtain ⟨q, hq, hfields⟩ := exists_of_bind hfields
      obtain ⟨qs, hqs, hfields⟩ := exists_of_bind hfields
      obtain ⟨k, hk, hq⟩ := exists_of_bind hq
      obtain ⟨v, hv, hq⟩ := exists_of_bind hq
      obtain ⟨ks, vs, hks, hvs, rfl⟩ := ih.mp hqs
      cases hq
      cases hfields
      exact ⟨k :: ks, v :: vs, .cons ((hf _ _).mp hk) hks, .cons ((hf _ _).mp hv) hvs, rfl⟩
    · cases hks with
      | cons hk hks =>
        cases hvs with
        | cons hv hvs =>
          rw [(hf _ _).mpr hk, (hf _ _).mpr hv, ih.mpr ⟨_, _, hks, hvs, rfl⟩, hfields]
          rfl

/-- What is shown of an object's properties under the keys of a list. -/
def showFields (f : Value → Except Fault Tree) (o : Object) (ks : List Text) :
    Except Fault (List (Text × Tree)) :=
  ks.filterMapM fun k => match o.properties.get? k with
    | some (.value v) => do return some (k, ← f v)
    | _ => return none

section

variable (f : Value → Except Fault Tree) {o : Object} {k : Text}

theorem showFields_of_value {v : Value} (hk : o.properties.get? k = some (.value v))
    (ks : List Text) :
    showFields f o (k :: ks) = f v >>= fun t => (fun fs => (k, t) :: fs) <$> showFields f o ks := by
  unfold showFields
  rw [List.filterMapM_cons]
  simp only [hk]
  cases f v with
  | error e => rfl
  | ok t =>
    change Except.bind (showFields f o ks) _ = Except.map _ (showFields f o ks)
    cases showFields f o ks <;> rfl

theorem showFields_of_other (hk : ∀ v, o.properties.get? k ≠ some (.value v)) (ks : List Text) :
    showFields f o (k :: ks) = showFields f o ks := by
  unfold showFields
  rw [List.filterMapM_cons]
  split
  · next v hv => exact absurd hv (hk v)
  · rfl

theorem fieldsAt_of_value {v : Value} (hk : o.properties.get? k = some (.value v))
    (ks : List Text) : fieldsAt o (k :: ks) = (k, v) :: fieldsAt o ks := by
  simp [fieldsAt, hk]

theorem fieldsAt_of_other (hk : ∀ v, o.properties.get? k ≠ some (.value v)) (ks : List Text) :
    fieldsAt o (k :: ks) = fieldsAt o ks := by
  unfold fieldsAt
  rw [List.filterMap_cons]
  split
  · rfl
  · next p hp =>
    split at hp
    · next v hv => exact absurd hv (hk v)
    · cases hp

end

theorem showFields_iff {f : Value → Except Fault Tree}
    (hf : ∀ v t, f v = .ok t ↔ h.Unfolds path v t) {o : Object} {ks : List Text}
    {fields : List (Text × Tree)} : showFields f o ks = .ok fields ↔
      ∃ ts, h.UnfoldAll path ((fieldsAt o ks).map Prod.snd) ts ∧
        fields = ((fieldsAt o ks).map Prod.fst).zip ts := by
  induction ks generalizing fields with
  | nil =>
    refine ⟨fun hfields => ?_, fun ⟨ts, hts, hfields⟩ => ?_⟩
    · cases hfields
      exact ⟨[], .nil, rfl⟩
    · rw [hfields]
      rfl
  | cons k ks ih =>
    by_cases hk : ∃ v, o.properties.get? k = some (.value v)
    · obtain ⟨v, hv⟩ := hk
      rw [showFields_of_value f hv, fieldsAt_of_value hv]
      refine ⟨fun hfields => ?_, fun ⟨ts, hts, hfields⟩ => ?_⟩
      · obtain ⟨t, ht, hfields⟩ := exists_of_bind hfields
        cases hrest : showFields f o ks with
        | error e => rw [hrest] at hfields; cases hfields
        | ok rest =>
          obtain ⟨ts, hts, rfl⟩ := ih.mp hrest
          rw [hrest] at hfields
          cases hfields
          exact ⟨t :: ts, .cons ((hf v t).mp ht) hts, rfl⟩
      · cases hts with
        | cons hv hvs =>
          rw [(hf _ _).mpr hv, ih.mpr ⟨_, hvs, rfl⟩, hfields]
          rfl
    · have hk : ∀ v, o.properties.get? k ≠ some (.value v) := fun v hv => hk ⟨v, hv⟩
      rw [showFields_of_other f hk, fieldsAt_of_other hk]
      exact ih

/-- What is inside an object, shown by what shows elements, entries and a value. -/
def showInside (each : List Value → Except Fault (List Tree))
    (entry : List (Value × Value) → Except Fault (List (Text × Tree)))
    (f : Value → Except Fault Tree) (o : Object) : Except Fault Tree :=
  match o.content with
  | .array es => return .list (← each es.toList)
  | .set entries => return .list (← each entries.values)
  | .map entries => return .object (OrderedMap.ofList (← entry entries.values))
  | _ => do
    let fields ← showFields f o (← o.ownKeys)
    return .object fields

theorem exportBelow_object (frames : Nat) (path : List Ref) (r : Ref) :
    h.exportBelow (frames + 1) path (.object r) =
      if (h.get r).isCallable then .ok (.text (functionLabel (h.get r)))
      else if path.contains r then .ok (.text "[Circular]")
      else showInside (h.exportEach frames (r :: path)) (h.exportEntries frames (r :: path))
        (h.exportBelow frames (r :: path)) (h.get r) := by
  rw [exportBelow]
  rfl

theorem map_ok_iff {α β : Type} {x : Except Fault α} {g : α → β} {b : β} :
    (x >>= fun a => pure (g a)) = .ok b ↔ ∃ a, x = .ok a ∧ b = g a := by
  cases x with
  | error e => exact ⟨nofun, fun ⟨a, ha, _⟩ => nomatch ha⟩
  | ok a =>
    refine ⟨fun hb => ⟨a, rfl, ?_⟩, fun ⟨c, hc, hb⟩ => ?_⟩
    · cases hb
      rfl
    · cases hc
      rw [hb]
      rfl

theorem fields_iff {f : Value → Except Fault Tree} (hf : ∀ v t, f v = .ok t ↔ h.Unfolds path v t)
    {o : Object} {t : Tree} : (do return Tree.object (← showFields f o (← o.ownKeys))) = .ok t ↔
      ∃ ks ts, o.ownKeys = .ok ks ∧ h.UnfoldAll path ((fieldsAt o ks).map Prod.snd) ts ∧
        t = Tree.object (((fieldsAt o ks).map Prod.fst).zip ts) := by
  refine ⟨fun ht => ?_, fun ⟨ks, ts, hks, hts, ht⟩ => ?_⟩
  · obtain ⟨ks, hks, ht⟩ := exists_of_bind ht
    obtain ⟨fields, hfields, rfl⟩ := map_ok_iff.mp ht
    obtain ⟨ts, hts, rfl⟩ := (showFields_iff hf).mp hfields
    exact ⟨ks, ts, hks, hts, rfl⟩
  · rw [hks]
    exact map_ok_iff.mpr ⟨_, (showFields_iff hf).mpr ⟨ts, hts, rfl⟩, ht⟩

/-- The inside of an object is shown just as it unfolds, if what is in it is. -/
theorem showInside_iff {g f : Value → Except Fault Tree}
    (hg : ∀ v t, g v = .ok t ↔ h.Unfolds path v t)
    (hf : ∀ v t, f v = .ok t ↔ h.Unfolds path v t) {o : Object} (ho : o.isCallable = false)
    {t : Tree} : showInside (·.mapM g) (·.mapM fun p => do return (label (← g p.1), ← g p.2)) f o =
      .ok t ↔ h.Holds path o o.content t := by
  unfold showInside
  cases hcontent : o.content with
  | array es =>
    refine map_ok_iff.trans ⟨fun ⟨ts, hts, ht⟩ => ht ▸ .array ((mapM_iff hg).mp hts), fun ht => ?_⟩
    cases ht with
    | array hts => exact ⟨_, (mapM_iff hg).mpr hts, rfl⟩
  | set entries =>
    refine map_ok_iff.trans ⟨fun ⟨ts, hts, ht⟩ => ht ▸ .set ((mapM_iff hg).mp hts), fun ht => ?_⟩
    cases ht with
    | set hts => exact ⟨_, (mapM_iff hg).mpr hts, rfl⟩
  | map entries =>
    refine map_ok_iff.trans ⟨fun ⟨fields, hfields, ht⟩ => ?_, fun ht => ?_⟩
    · obtain ⟨ks, vs, hks, hvs, rfl⟩ := (mapM_entries_iff hg).mp hfields
      exact ht ▸ .map hks hvs
    · cases ht with
      | map hks hvs => exact ⟨_, (mapM_entries_iff hg).mpr ⟨_, _, hks, hvs, rfl⟩, rfl⟩
  | plain =>
    refine (fields_iff hf).trans ⟨fun ⟨ks, ts, hks, hts, ht⟩ => ?_, fun ht => ?_⟩
    · exact ht ▸ .plain hks hts
    · cases ht with
      | plain hks hts => exact ⟨_, _, hks, hts, rfl⟩
  | date time =>
    refine (fields_iff hf).trans ⟨fun ⟨ks, ts, hks, hts, ht⟩ => ?_, fun ht => ?_⟩
    · exact ht ▸ .date hks hts
    · cases ht with
      | date hks hts => exact ⟨_, _, hks, hts, rfl⟩
  | closure c => simp [Object.isCallable, hcontent] at ho
  | native name f => simp [Object.isCallable, hcontent] at ho

/-- A way through objects that are there, which never meets one of them twice. -/
structure IsWay (h : Heap) (path : List Ref) : Prop where
  nodup : path.Nodup
  there : ∀ r ∈ path, r.index < h.objects.size

theorem IsWay.length_le (hpath : h.IsWay path) : path.length ≤ h.objects.size := by
  have hindices : (path.map Ref.index).Nodup :=
    List.Pairwise.map _ (fun r s hrs h => hrs (congrArg Ref.mk h)) hpath.nodup
  have hsubset : path.map Ref.index ⊆ List.range h.objects.size := fun i hi => by
    obtain ⟨r, hr, rfl⟩ := List.mem_map.mp hi
    exact List.mem_range.mpr (hpath.there r hr)
  simpa using (hindices.subperm hsubset).length_le

theorem IsWay.cons {r : Ref} (hpath : h.IsWay path) (hr : r ∉ path)
    (hthere : r.index < h.objects.size) : h.IsWay (r :: path) where
  nodup := List.nodup_cons.mpr ⟨hr, hpath.nodup⟩
  there := List.forall_mem_cons.mpr ⟨hthere, hpath.there⟩

theorem get_of_size_le {r : Ref} (hr : h.objects.size ≤ r.index) : h.get r = {} := by
  simp only [Heap.get, Array.getD_eq_getD_getElem?, Array.getElem?_eq_none hr]
  rfl

/-- An object that is not there holds nothing. -/
theorem holds_default_iff {t : Tree} : h.Holds path {} .plain t ↔ t = .object [] := by
  refine ⟨fun ht => ?_, fun ht => ?_⟩
  · cases ht with
    | plain hks hts =>
      cases hks
      cases hts
      rfl
  · have hkeys : Object.ownKeys {} = .ok [] := rfl
    exact ht ▸ .plain hkeys .nil

/-! ### Exported values are unfoldings -/

/-- A way that can go on has two frames for the next object, and one left for what is in it. -/
theorem IsWay.frames (hpath : h.IsWay path) {r : Ref} (hr : r ∉ path)
    (hthere : r.index < h.objects.size) {frames : Nat}
    (hframes : 2 * h.objects.size < 2 * path.length + (frames + 1)) :
    ∃ k, frames = k + 1 ∧ 2 * h.objects.size < 2 * (r :: path).length + k := by
  have hlength := (hpath.cons hr hthere).length_le
  rw [List.length_cons] at hlength ⊢
  exact ⟨frames - 1, by omega, by omega⟩

theorem exportBelow_iff {frames : Nat} (hpath : h.IsWay path)
    (hframes : 2 * h.objects.size < 2 * path.length + frames) {v : Value} {t : Tree} :
    h.exportBelow frames path v = .ok t ↔ h.Unfolds path v t := by
  -- Elements have two frames less than the array, fields one less than the record.
  induction frames using Nat.strongRecOn generalizing path v t with
  | ind frames ih =>
  have hlength := hpath.length_le
  obtain ⟨frames, rfl⟩ : ∃ k, frames = k + 1 := ⟨frames - 1, by omega⟩
  · have hat {u : Tree} (hv : h.exportBelow (frames + 1) path v = .ok u)
        (hu : h.Unfolds path v t ↔ t = u) :
        h.exportBelow (frames + 1) path v = .ok t ↔ h.Unfolds path v t := by
      rw [hv, hu, Except.ok.injEq, eq_comm]
    cases v with
    | object r =>
      have hobject := h.exportBelow_object frames path r
      by_cases hcallable : (h.get r).isCallable = true
      · rw [if_pos hcallable] at hobject
        refine hat hobject ⟨fun ht => ?_, fun ht => ht ▸ .function hcallable⟩
        cases ht with
        | function hr => rfl
        | circular hr hpath => simp [hcallable] at hr
        | opened hr hpath ht => simp [hcallable] at hr
      rw [if_neg hcallable] at hobject
      have hcallable : (h.get r).isCallable = false := by simpa using hcallable
      by_cases hmem : r ∈ path
      · rw [if_pos (List.contains_iff_mem.mpr hmem)] at hobject
        refine hat hobject ⟨fun ht => ?_, fun ht => ht ▸ .circular hcallable hmem⟩
        cases ht with
        | function hr => simp [hcallable] at hr
        | circular hr hpath => rfl
        | opened hr hpath ht => exact absurd hmem hpath
      rw [if_neg (by simpa using hmem)] at hobject
      rw [hobject]
      have hopened : h.Unfolds path (.object r) t ↔
          h.Holds (r :: path) (h.get r) (h.get r).content t := by
        refine ⟨fun ht => ?_, .opened hcallable hmem⟩
        cases ht with
        | function hr => simp [hcallable] at hr
        | circular hr hpath => exact absurd hpath hmem
        | opened hr hpath ht => exact ht
      rw [hopened]
      by_cases hthere : r.index < h.objects.size
      · obtain ⟨k, rfl, hk⟩ := hpath.frames hmem hthere hframes
        simp only [exportEach, exportEntries]
        have hway := hpath.cons hmem hthere
        exact showInside_iff (fun v t => ih k (by omega) hway hk)
          (fun v t => ih (k + 1) (by omega) hway (by omega)) hcallable
      · rw [get_of_size_le (Nat.not_lt.mp hthere), holds_default_iff, eq_comm]
        exact ⟨fun ht => by cases ht; rfl, fun ht => ht ▸ rfl⟩
    | undefined => exact hat rfl ⟨fun ht => by cases ht; rfl, fun ht => ht ▸ .undefined⟩
    | null => exact hat rfl ⟨fun ht => by cases ht; rfl, fun ht => ht ▸ .null⟩
    | bool b => exact hat rfl ⟨fun ht => by cases ht; rfl, fun ht => ht ▸ .bool b⟩
    | number x => exact hat rfl ⟨fun ht => by cases ht; rfl, fun ht => ht ▸ .number x⟩
    | text u => exact hat rfl ⟨fun ht => by cases ht; rfl, fun ht => ht ▸ .text u⟩

/-- Keys that can be put in order, on every object. -/
def KeysFit (h : Heap) : Prop := ∀ r, ∀ k ∈ (h.get r).properties.keys, KeyFits k

theorem exists_mapM {α β : Type} {f : α → Except Fault β} (hf : ∀ a, ∃ b, f a = .ok b)
    (as : List α) : ∃ bs, as.mapM f = .ok bs := by
  induction as with
  | nil => exact ⟨[], rfl⟩
  | cons a as ih =>
    obtain ⟨b, hb⟩ := hf a
    obtain ⟨bs, hbs⟩ := ih
    rw [List.mapM_cons, hb, hbs]
    exact ⟨b :: bs, rfl⟩

theorem exists_showFields {f : Value → Except Fault Tree} (hf : ∀ v, ∃ t, f v = .ok t) (o : Object)
    (ks : List Text) : ∃ fields, showFields f o ks = .ok fields := by
  induction ks with
  | nil => exact ⟨[], rfl⟩
  | cons k ks ih =>
    obtain ⟨fields, hfields⟩ := ih
    by_cases hk : ∃ v, o.properties.get? k = some (.value v)
    · obtain ⟨v, hv⟩ := hk
      obtain ⟨t, ht⟩ := hf v
      rw [showFields_of_value f hv, ht, hfields]
      exact ⟨_, rfl⟩
    · rw [showFields_of_other f fun v hv => hk ⟨v, hv⟩, hfields]
      exact ⟨fields, rfl⟩

theorem exists_ownKeys {o : Object} (ho : ∀ k ∈ o.properties.keys, KeyFits k) :
    ∃ ks, o.ownKeys = .ok ks := by
  unfold Object.ownKeys
  rw [orderedKeys_eq ho]
  cases o.content <;> exact ⟨_, rfl⟩

theorem exists_showInside {g f : Value → Except Fault Tree} (hg : ∀ v, ∃ t, g v = .ok t)
    (hf : ∀ v, ∃ t, f v = .ok t) {o : Object} (ho : ∀ k ∈ o.properties.keys, KeyFits k) :
    ∃ t, showInside (·.mapM g) (·.mapM fun p => do return (label (← g p.1), ← g p.2)) f o =
      .ok t := by
  have hfields : ∃ t, (do return Tree.object (← showFields f o (← o.ownKeys))) = .ok t := by
    obtain ⟨ks, hks⟩ := exists_ownKeys ho
    obtain ⟨fields, hfields⟩ := exists_showFields hf o ks
    rw [hks]
    exact ⟨_, map_ok_iff.mpr ⟨fields, hfields, rfl⟩⟩
  unfold showInside
  cases o.content with
  | array es =>
    obtain ⟨ts, hts⟩ := exists_mapM hg es.toList
    exact ⟨_, map_ok_iff.mpr ⟨ts, hts, rfl⟩⟩
  | set entries =>
    obtain ⟨ts, hts⟩ := exists_mapM hg entries.values
    exact ⟨_, map_ok_iff.mpr ⟨ts, hts, rfl⟩⟩
  | map entries =>
    obtain ⟨fields, hfields⟩ := exists_mapM (f := fun p : Value × Value => do
      return (label (← g p.1), ← g p.2)) (fun p => by
        obtain ⟨k, hk⟩ := hg p.1
        obtain ⟨v, hv⟩ := hg p.2
        rw [hk, hv]
        exact ⟨_, rfl⟩) entries.values
    exact ⟨_, map_ok_iff.mpr ⟨fields, hfields, rfl⟩⟩
  | _ => exact hfields

theorem exists_exportBelow (hkeys : h.KeysFit) {frames : Nat} (hpath : h.IsWay path)
    (hframes : 2 * h.objects.size < 2 * path.length + frames) (v : Value) :
    ∃ t, h.exportBelow frames path v = .ok t := by
  induction frames using Nat.strongRecOn generalizing path v with
  | ind frames ih =>
  have hlength := hpath.length_le
  obtain ⟨frames, rfl⟩ : ∃ k, frames = k + 1 := ⟨frames - 1, by omega⟩
  · cases v with
    | object r =>
      rw [exportBelow_object]
      split
      · exact ⟨_, rfl⟩
      · split
        · exact ⟨_, rfl⟩
        · next hmem =>
          have hmem : r ∉ path := by simpa using hmem
          by_cases hthere : r.index < h.objects.size
          · obtain ⟨k, rfl, hk⟩ := hpath.frames hmem hthere hframes
            have hway := hpath.cons hmem hthere
            simp only [exportEach, exportEntries]
            exact exists_showInside (ih k (by omega) hway hk)
              (ih (k + 1) (by omega) hway (by omega)) (hkeys r)
          · rw [get_of_size_le (Nat.not_lt.mp hthere)]
            exact ⟨_, rfl⟩
    | _ => exact ⟨_, rfl⟩

end

end Heap

/-! ### Marks -/

/-- Shows what has to be shown and sets marks on the way. -/
abbrev Marking := ExceptT Fault (StateM (List Ref))

namespace Marking

variable {α β : Type}

/-- An object stays marked until something has come to an end, however that ends. -/
def whileMarked (r : Ref) (x : Marking α) : Marking α := ExceptT.mk fun marks =>
  let (result, marks) := x.run.run (r :: marks)
  (result, marks.erase r)

def ofExcept (x : Except Fault α) : Marking α := ExceptT.mk (pure x)

/-- Shows what is inside an object. -/
def showInside (each : List Value → Marking (List Tree))
    (entry : List (Value × Value) → Marking (List (Text × Tree))) (f : Value → Marking Tree)
    (o : Object) : Marking Tree := do
  match o.content with
  | .array es => return .list (← each es.toList)
  | .set entries => return .list (← each entries.values)
  | .map entries => return .object (OrderedMap.ofList (← entry entries.values))
  | _ =>
    let fields ← (← ofExcept o.ownKeys).filterMapM fun k =>
      match o.properties.get? k with
      | some (.value v) => do return some (k, ← f v)
      | _ => return none
    return .object fields

mutual

/-- Exports a value; an object with a mark is shown as circular. -/
def exported (h : Heap) : Nat → Value → Marking Tree
  | _, .undefined => pure .null
  | _, .null => pure .null
  | _, .bool b => pure (.bool b)
  | _, .number x => pure (Heap.exportNumber x)
  | _, .text t => pure (.text t)
  | 0, .object _ => throw .nestingTooDeep
  | frames + 1, .object r => do
    if (h.get r).isCallable then return .text (Heap.functionLabel (h.get r))
    if (← get).contains r then return .text "[Circular]"
    whileMarked r (showInside (exportedEach h frames) (exportedEntries h frames)
      (exported h frames) (h.get r))

def exportedEach (h : Heap) : Nat → List Value → Marking (List Tree)
  | 0, _ => throw .nestingTooDeep
  | frames + 1, vs => vs.mapM (exported h frames)

def exportedEntries (h : Heap) : Nat → List (Value × Value) → Marking (List (Text × Tree))
  | 0, _ => throw .nestingTooDeep
  | frames + 1, ps => ps.mapM fun p => do
    return (label (← exported h frames p.1), ← exported h frames p.2)

end

/-- Comes to what is said for the marks there are, and leaves them as they are. -/
def Tidy (x : Marking α) (y : List Ref → Except Fault α) : Prop :=
  ∀ marks, x.run.run marks = (y marks, marks)

namespace Tidy

theorem pure (a : α) : Tidy (Pure.pure a) fun _ => .ok a := fun _ => rfl

theorem ofExcept (x : Except Fault α) : Tidy (ofExcept x) fun _ => x := fun _ => rfl

theorem bind {x : Marking α} {y : List Ref → Except Fault α} {f : α → Marking β}
    {g : α → List Ref → Except Fault β} (hx : Tidy x y) (hf : ∀ a, Tidy (f a) (g a)) :
    Tidy (x >>= f) fun marks => y marks >>= fun a => g a marks := by
  intro marks
  change (ExceptT.bindCont f (x.run.run marks).1).run (x.run.run marks).2 =
    (y marks >>= fun a => g a marks, marks)
  rw [hx marks]
  cases y marks with
  | ok a => exact hf a marks
  | error e => rfl

theorem mapM {f : α → Marking β} {g : α → List Ref → Except Fault β} (hf : ∀ a, Tidy (f a) (g a))
    (as : List α) : Tidy (as.mapM f) fun marks => as.mapM fun a => g a marks := by
  induction as with
  | nil => exact .pure []
  | cons a as ih =>
    simp only [List.mapM_cons]
    exact (hf a).bind fun b => ih.bind fun bs => .pure (b :: bs)

theorem filterMapM {f : α → Marking (Option β)} {g : α → List Ref → Except Fault (Option β)}
    (hf : ∀ a, Tidy (f a) (g a)) (as : List α) :
    Tidy (as.filterMapM f) fun marks => as.filterMapM fun a => g a marks := by
  induction as with
  | nil => exact .pure []
  | cons a as ih =>
    simp only [List.filterMapM_cons]
    refine (hf a).bind fun b => ?_
    cases b with
    | none => exact ih
    | some b => exact ih.bind fun bs => .pure (b :: bs)

/-- The mark is taken away again, and nothing else has changed. -/
theorem whileMarked {r : Ref} {x : Marking α} {y : List Ref → Except Fault α} (hx : Tidy x y) :
    Tidy (whileMarked r x) fun marks => y (r :: marks) := by
  intro marks
  change ((x.run.run (r :: marks)).1, (x.run.run (r :: marks)).2.erase r) = _
  rw [hx, List.erase_cons_head]

theorem showInside {each : List Value → Marking (List Tree)}
    {entry : List (Value × Value) → Marking (List (Text × Tree))} {f : Value → Marking Tree}
    {each' : List Ref → List Value → Except Fault (List Tree)}
    {entry' : List Ref → List (Value × Value) → Except Fault (List (Text × Tree))}
    {g : List Ref → Value → Except Fault Tree} (heach : ∀ vs, Tidy (each vs) fun marks => each' marks vs)
    (hentry : ∀ ps, Tidy (entry ps) fun marks => entry' marks ps)
    (hf : ∀ v, Tidy (f v) fun marks => g marks v) (o : Object) :
    Tidy (showInside each entry f o)
      fun marks => Heap.showInside (each' marks) (entry' marks) (g marks) o := by
  have hfields : Tidy
      (do
        let fields ← (← Marking.ofExcept o.ownKeys).filterMapM fun k =>
          match o.properties.get? k with
          | some (.value v) => do return some (k, ← f v)
          | _ => return none
        return Tree.object fields)
      fun marks => o.ownKeys >>= fun ks => Heap.showFields (g marks) o ks >>= fun fields =>
        Pure.pure (Tree.object fields) := by
    refine (ofExcept o.ownKeys).bind fun ks => bind (filterMapM (fun k => ?_) ks) fun _ => .pure _
    split
    · exact (hf _).bind fun t => .pure _
    · exact .pure none
  unfold Marking.showInside Heap.showInside
  cases o.content with
  | array es => exact (heach _).bind fun ts => .pure _
  | set entries => exact (heach _).bind fun ts => .pure _
  | map entries => exact (hentry _).bind fun fields => .pure _
  | _ => exact hfields

end Tidy

/-- With marks the same is shown as with the way that they stand for. -/
theorem tidy_exported (h : Heap) (frames : Nat) (v : Value) :
    Tidy (exported h frames v) fun marks => h.exportBelow frames marks v := by
  induction frames using Nat.strongRecOn generalizing v with
  | ind frames ih =>
  have heach (k : Nat) (hk : k < frames) (vs : List Value) :
      Tidy (exportedEach h k vs) fun marks => h.exportEach k marks vs := by
    cases k with
    | zero =>
      simp only [exportedEach, Heap.exportEach]
      exact fun _ => rfl
    | succ k =>
      simp only [exportedEach, Heap.exportEach]
      exact .mapM (ih k (by omega)) vs
  have hentries (k : Nat) (hk : k < frames) (ps : List (Value × Value)) :
      Tidy (exportedEntries h k ps) fun marks => h.exportEntries k marks ps := by
    cases k with
    | zero =>
      simp only [exportedEntries, Heap.exportEntries]
      exact fun _ => rfl
    | succ k =>
      simp only [exportedEntries, Heap.exportEntries]
      exact .mapM (fun p => (ih k (by omega) p.1).bind fun t => (ih k (by omega) p.2).bind fun u =>
        .pure (label t, u)) ps
  cases frames with
  | zero => cases v <;> simp only [exported, Heap.exportBelow] <;> exact fun _ => rfl
  | succ frames =>
    cases v with
    | object r =>
      intro marks
      change _ = (h.exportBelow (frames + 1) marks (.object r), marks)
      rw [Heap.exportBelow_object]
      unfold exported
      by_cases hcallable : (h.get r).isCallable = true
      · rw [if_pos hcallable, if_pos hcallable]
        rfl
      rw [if_neg hcallable, if_neg hcallable]
      change (if marks.contains r then pure (.text "[Circular]") else
        whileMarked r (showInside (exportedEach h frames) (exportedEntries h frames)
          (exported h frames) (h.get r)) : Marking Tree).run.run marks = _
      by_cases hmem : marks.contains r = true
      · rw [if_pos hmem, if_pos hmem]
        rfl
      rw [if_neg hmem, if_neg hmem]
      exact Tidy.whileMarked (Tidy.showInside (heach frames (by omega)) (hentries frames (by omega))
        (ih frames (by omega)) (h.get r)) marks
    | _ => simp only [exported, Heap.exportBelow]; exact fun _ => rfl

end Marking

namespace Heap

/-- A reference to what is no function is circular just if it leads to an object on the way. -/
theorem Unfolds.circular_iff {h : Heap} {path : List Ref} {r : Ref} {t : Tree}
    (ht : h.Unfolds path (.object r) t) (hr : (h.get r).isCallable = false) :
    t = .text "[Circular]" ↔ r ∈ path := by
  cases ht with
  | function hcallable => simp [hr] at hcallable
  | circular _ hpath => exact ⟨fun _ => hpath, fun _ => rfl⟩
  | opened _ hpath ht =>
    refine ⟨fun hcircular => ?_, fun hmem => absurd hmem hpath⟩
    generalize (h.get r).content = content at ht
    cases ht <;> cases hcircular

/-- What a value is captured as is its unfolding, and each value has one, if there are frames enough
for every object; in it a reference to what is no function is circular just if it leads to an object
on the way there. To find out by marks comes to the same, and takes every mark away again. -/
theorem export_unfolds {h : Heap} (hkeys : h.KeysFit) {frames : Nat}
    (hframes : 2 * h.objects.size < frames) (v : Value) :
    (∃ t, h.export_ frames v = .ok t) ∧ (∀ t, h.export_ frames v = .ok t ↔ h.Unfolds [] v t) ∧
    (∀ path r t, (h.get r).isCallable = false → h.Unfolds path (.object r) t →
      (t = .text "[Circular]" ↔ r ∈ path)) ∧
    ∀ frames marks, (Marking.exported h frames v).run.run marks =
      (h.exportBelow frames marks v, marks) := by
  have hway : h.IsWay [] := ⟨.nil, nofun⟩
  have hframes : 2 * h.objects.size < 2 * ([] : List Ref).length + frames := by
    rw [List.length_nil]
    omega
  exact ⟨exists_exportBelow hkeys hway hframes v, fun t => exportBelow_iff hway hframes,
    fun path r t hr ht => ht.circular_iff hr, fun frames => Marking.tidy_exported h frames v⟩

/-- An array that holds itself twice. -/
example : (⟨#[{ content := .array #[.object ⟨0⟩, .object ⟨0⟩] }]⟩ : Heap).export_ 3 (.object ⟨0⟩) =
    .ok (.list [.text "[Circular]", .text "[Circular]"]) := rfl

end Heap
end Stepper.Machine
