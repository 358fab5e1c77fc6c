import Stepper.Proofs.Keys
import Stepper.Proofs.Nesting
import Stepper.Proofs.Settling
import Stepper.Proofs.Stacking
import Stepper.Proofs.Unfolding

/-!
Which values have a text as JSON. An array shows its elements where it is written, and a record its
data properties; dictionaries, sets and functions show nothing. A value from which an object can be
reached that leads back to itself is refused as circular. Any other one has a text, in which an
object is written out as often as it is shown, if there are three frames for each object on a way
through what is shown, and for the value at its end.
-/
namespace Stepper.Machine

open Builtin

/-! ### Texts of values -/

namespace Object

/-- Objects of which nothing is written. -/
def isCollection (o : Object) : Bool := match o.content with
  | .map _ | .set _ => true
  | _ => false

/-- The properties that are written, in their order. -/
def shownFields (o : Object) : List (Text × Value) :=
  Heap.fieldsAt o (keysInOrder o.properties.keys)

/-- Such a value is written as part of the object. -/
inductive Shows (o : Object) : Value → Prop
  | element {es : Array Value} {v : Value} (hcontent : o.content = .array es) (hv : v ∈ es.toList) :
      Shows o v
  | property {k : Text} {v : Value} (hcontent : o.isRecord = true)
      (hk : o.properties.get? k = some (.value v)) : Shows o v

/-- Functions, dictionaries and sets show nothing. -/
theorem Shows.content {o : Object} {v : Value} (hv : o.Shows v) :
    o.isCallable = false ∧ o.isCollection = false := by
  cases hv with
  | element hcontent => simp [isCallable, isCollection, hcontent]
  | property hcontent =>
    obtain hplain | ⟨time, hdate⟩ := isRecord_iff.mp hcontent
    · simp [isCallable, isCollection, hplain]
    · simp [isCallable, isCollection, hdate]

end Object

namespace Heap

variable {h : Heap} {r s : Ref} {v u : Value}

/-- What shows something is there. -/
theorem there_of_shows (hv : (h.get r).Shows v) : r.index < h.objects.size := by
  refine Nat.lt_of_not_le fun hle => ?_
  rw [get_of_size_le hle] at hv
  cases hv with
  | element hcontent => cases hcontent
  | property _ hk => cases hk

/-- There is a way from a value to an object, through what objects show. -/
inductive Reaches (h : Heap) : Value → Ref → Prop
  | here (r : Ref) : Reaches h (.object r) r
  | shows {r s : Ref} {v : Value} (hv : (h.get r).Shows v) (hs : Reaches h v s) :
      Reaches h (.object r) s

/-- The objects on a way from a value. -/
inductive Way (h : Heap) : Value → List Ref → Prop
  | stop (v : Value) : Way h v []
  | on {r : Ref} {v : Value} {rs : List Ref} (hv : (h.get r).Shows v) (hrs : Way h v rs) :
      Way h (.object r) (r :: rs)

theorem Reaches.trans (hr : h.Reaches v r) (hs : h.Reaches (.object r) s) : h.Reaches v s := by
  induction hr with
  | here => exact hs
  | shows hv _ ih => exact .shows hv (ih hs)

/-- Values that take nothing but reading to write: no object is in charge of its own form, and keys
and elements can be gone through. -/
structure Inert (h : Heap) (v : Value) : Prop where
  toJSON : ∀ r, h.Reaches v r → (h.get r).isCallable = false → h.lookup "toJSON" r = none
  keys : ∀ r, h.Reaches v r → (h.get r).isRecord = true →
    ∀ k ∈ (h.get r).properties.keys, KeyFits k
  rounds : ∀ r, h.Reaches v r → (h.get r).elements.size < Action.maxRounds

theorem Inert.shows (h' : h.Inert (.object r)) (hv : (h.get r).Shows v) : h.Inert v where
  toJSON s hs := h'.toJSON s (.shows hv hs)
  keys s hs := h'.keys s (.shows hv hs)
  rounds s hs := h'.rounds s (.shows hv hs)

/-- A property as it is written, if its value has a text. -/
def fieldText (unit_ k : Text) (t : Option Text) : Option Text :=
  t.map fun t => Text.quote k ++ (if unit_.isEmpty then ":" else ": " : Text) ++ t

/-- The text that a value has, if it has one. -/
inductive Serial (h : Heap) (unit_ : Text) : Text → Value → Option Text → Prop
  | undefined {indent : Text} : Serial h unit_ indent .undefined none
  | null {indent : Text} : Serial h unit_ indent .null (some "null")
  | bool {indent : Text} (b : Bool) :
      Serial h unit_ indent (.bool b) (some (if b then "true" else "false"))
  | number {indent : Text} (x : Float) :
      Serial h unit_ indent (.number x) (some (if x.isFinite then Number.text x else "null"))
  | text {indent : Text} (t : Text) : Serial h unit_ indent (.text t) (some (Text.quote t))
  | function {indent : Text} {r : Ref} (hr : (h.get r).isCallable = true) :
      Serial h unit_ indent (.object r) none
  | collection {indent : Text} {r : Ref} (hr : (h.get r).isCollection = true) :
      Serial h unit_ indent (.object r) (some (wrapped "\x7b" "\x7d" indent unit_ []))
  | array {indent : Text} {r : Ref} {es : Array Value} {ts : List (Option Text)}
      (hr : (h.get r).content = .array es) (hlength : es.toList.length = ts.length)
      (hts : ∀ {v t}, (v, t) ∈ es.toList.zip ts → Serial h unit_ (indent ++ unit_) v t) :
      Serial h unit_ indent (.object r)
        (some (wrapped "[" "]" indent unit_ (ts.map fun t => t.getD "null")))
  | record {indent : Text} {r : Ref} {ts : List (Option Text)} (hr : (h.get r).isRecord = true)
      (hlength : (h.get r).shownFields.length = ts.length)
      (hts : ∀ {p t}, (p, t) ∈ (h.get r).shownFields.zip ts →
        Serial h unit_ (indent ++ unit_) p.2 t) :
      Serial h unit_ indent (.object r) (some (wrapped "\x7b" "\x7d" indent unit_
        ((List.zipWith (fun p t => fieldText unit_ p.1 t) (h.get r).shownFields ts).filterMap id)))

theorem eq_of_zip {α β : Type} {as : List α} {bs cs : List β} (hbs : as.length = bs.length)
    (hcs : as.length = cs.length)
    (heq : ∀ {a b}, (a, b) ∈ as.zip bs → ∀ {c}, (a, c) ∈ as.zip cs → b = c) : bs = cs := by
  induction as generalizing bs cs with
  | nil => rw [List.length_eq_zero_iff.mp hbs.symm, List.length_eq_zero_iff.mp hcs.symm]
  | cons a as ih =>
    obtain _ | ⟨b, bs⟩ := bs
    · cases hbs
    obtain _ | ⟨c, cs⟩ := cs
    · cases hcs
    have hhead : b = c := heq (a := a) List.mem_cons_self List.mem_cons_self
    have htail : bs = cs := ih (Nat.succ.inj hbs) (Nat.succ.inj hcs) fun hb _ hc =>
      heq (List.mem_cons_of_mem _ hb) (List.mem_cons_of_mem _ hc)
    rw [hhead, htail]

/-- A value has no two texts. -/
theorem Serial.unique {unit_ indent : Text} {t t' : Option Text} (ht : h.Serial unit_ indent v t)
    (ht' : h.Serial unit_ indent v t') : t = t' := by
  induction ht generalizing t' with
  | undefined | null | bool | number | text =>
    cases ht'
    rfl
  | @function _ r hr | @collection _ r hr =>
    cases hcontent : (h.get r).content <;> cases ht' <;>
      simp_all [Object.isCallable, Object.isCollection, Object.isRecord]
  | @array _ r es ts hr hlength hts ih =>
    cases ht' with
    | array hr' hlength' hts' =>
      obtain rfl := Content.array.inj (hr.symm.trans hr')
      rw [eq_of_zip hlength hlength' fun ht _ ht' => ih ht (hts' ht')]
    | _ => simp_all [Object.isCallable, Object.isCollection, Object.isRecord]
  | @record _ r ts hr hlength hts ih =>
    cases ht' with
    | record hr' hlength' hts' => rw [eq_of_zip hlength hlength' fun ht _ ht' => ih ht (hts' ht')]
    | _ =>
      cases hcontent : (h.get r).content <;>
        simp_all [Object.isCallable, Object.isCollection, Object.isRecord]

theorem exists_mem_zip {α β : Type} {as : List α} {bs : List β} (hlength : as.length = bs.length)
    {a : α} (ha : a ∈ as) : ∃ b, (a, b) ∈ as.zip bs := by
  induction as generalizing bs with
  | nil => cases ha
  | cons c as ih =>
    obtain _ | ⟨b, bs⟩ := bs
    · cases hlength
    obtain rfl | ha := List.mem_cons.mp ha
    · exact ⟨b, List.mem_cons_self⟩
    · obtain ⟨b', hb⟩ := ih (Nat.succ.inj hlength) ha
      exact ⟨b', List.mem_cons_of_mem _ hb⟩

theorem mem_shownFields_iff {o : Object} {p : Text × Value} :
    p ∈ o.shownFields ↔ o.properties.get? p.1 = some (.value p.2) := by
  refine ⟨fun hp => ?_, fun hp => ?_⟩
  · obtain ⟨k, -, hk⟩ := List.mem_filterMap.mp hp
    split at hk
    · next v hv =>
      cases hk
      exact hv
    · cases hk
  · have hkey : p.1 ∈ keysInOrder o.properties.keys :=
      (keysInOrder_perm _).mem_iff.mpr (OrderedMap.has_iff.mp (by rw [OrderedMap.has, hp]; rfl))
    exact List.mem_filterMap.mpr ⟨p.1, hkey, by simp only [hp]⟩

/-- The objects that an object shows are below it. -/
def Below (h : Heap) (s r : Ref) : Prop := (h.get r).Shows (.object s)

theorem Serial.acc {unit_ indent : Text} {t : Option Text} (ht : h.Serial unit_ indent v t) :
    ∀ r, v = .object r → Acc h.Below r := by
  -- what an object shows has a text inside that of the object, so it is accessible before
  induction ht with
  | undefined | null | bool | number | text => nofun
  | function hr =>
    rintro _ ⟨⟩
    exact .intro _ fun s hs => absurd hr (by rw [hs.content.1]; exact Bool.false_ne_true)
  | collection hr =>
    rintro _ ⟨⟩
    exact .intro _ fun s hs => absurd hr (by rw [hs.content.2]; exact Bool.false_ne_true)
  | array hr hlength hts ih =>
    rintro _ ⟨⟩
    refine .intro _ fun s hs => ?_
    cases hs with
    | element hcontent hv =>
      obtain rfl := Content.array.inj (hr.symm.trans hcontent)
      obtain ⟨t, ht⟩ := exists_mem_zip hlength hv
      exact ih ht s rfl
    | property hcontent => simp [Object.isRecord, hr] at hcontent
  | record hr hlength hts ih =>
    rintro _ ⟨⟩
    refine .intro _ fun s hs => ?_
    cases hs with
    | element hcontent => simp [Object.isRecord, hcontent] at hr
    | @property k _ hcontent hk =>
      obtain ⟨t, ht⟩ := exists_mem_zip hlength (mem_shownFields_iff (p := (k, .object s)).mpr hk)
      exact ih ht s rfl

end Heap
end Stepper.Machine

namespace Stepper.Builtin

open Machine Machine.Action Execution

section

variable {c : Context} {w : World} {frames k : Nat} {path : List Ref} {r : Ref}
  {indent unit_ : Text}

end

end Stepper.Builtin

namespace Stepper.Machine.Heap

variable {h : Heap} {v : Value}

/-! ### Frames -/

/-- A way goes through objects that are there. -/
theorem Way.there {rs : List Ref} (hway : h.Way v rs) : ∀ r ∈ rs, r.index < h.objects.size := by
  induction hway with
  | stop => nofun
  | on hv _ ih => exact List.forall_mem_cons.mpr ⟨there_of_shows hv, ih⟩

theorem Way.length_le {rs : List Ref} (hway : h.Way v rs) (hnodup : rs.Nodup) :
    rs.length ≤ h.objects.size := IsWay.length_le ⟨hnodup, hway.there⟩

/-- There are three frames for each object on a way, and for the value at its end. -/
def Fits (h : Heap) (frames : Nat) (v : Value) : Prop :=
  ∀ rs, h.Way v rs → rs.Nodup → 3 * rs.length + 2 < frames

end Stepper.Machine.Heap

namespace Stepper.Builtin

open Machine Machine.Action Execution

end Stepper.Builtin

namespace Stepper.Machine

end Stepper.Machine

namespace Stepper.Builtin

open Machine Machine.Action Execution

/-- What the storey of a tower holds: the one below it. -/
def below : Nat → Value
  | 0 => .null
  | i + 1 => .object ⟨i⟩

def storey (i : Nat) : Object := { content := .array #[below i] }

/-- Arrays, each of which holds the one before. -/
def tower (n : Nat) : Heap := ⟨(Array.range n).map storey⟩

theorem tower_get {n i : Nat} (hi : i < n) : (tower n).get ⟨i⟩ = storey i := by
  simp [tower, Heap.get, hi]

end Stepper.Builtin
