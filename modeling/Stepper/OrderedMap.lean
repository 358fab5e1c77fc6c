/-!
Ordered dictionaries: pairs in the order in which their keys were first set. Setting a key that is
present keeps its place; a key that was erased and set again goes to the end.
-/
namespace Stepper

abbrev OrderedMap (κ α : Type) := List (κ × α)

namespace OrderedMap

variable {κ α : Type} [DecidableEq κ]

def get? (k : κ) : OrderedMap κ α → Option α
  | [] => none
  | (l, a) :: d => if k = l then some a else get? k d

def has (k : κ) (d : OrderedMap κ α) : Bool := (d.get? k).isSome

def set (k : κ) (a : α) : OrderedMap κ α → OrderedMap κ α
  | [] => [(k, a)]
  | (l, b) :: d => if k = l then (k, a) :: d else (l, b) :: set k a d

def erase (k : κ) : OrderedMap κ α → OrderedMap κ α
  | [] => []
  | (l, b) :: d => if k = l then d else (l, b) :: erase k d

def keys (d : OrderedMap κ α) : List κ := d.map Prod.fst
def values (d : OrderedMap κ α) : List α := d.map Prod.snd

def ofList (ps : List (κ × α)) : OrderedMap κ α := ps.foldl (fun d p => d.set p.1 p.2) []

@[simp] theorem get?_nil (k : κ) : get? k ([] : OrderedMap κ α) = none := rfl

theorem get?_set (k l : κ) (a : α) (d : OrderedMap κ α) :
    (d.set l a).get? k = if k = l then some a else d.get? k := by
  induction d with
  | nil => simp [set, get?]
  | cons p d ih =>
    obtain ⟨m, b⟩ := p
    by_cases h : l = m
    · subst h; by_cases hk : k = l <;> simp [set, get?, hk]
    · by_cases hk : k = m
      · subst hk; simp [set, get?, h, Ne.symm h]
      · simp [set, get?, h, hk, ih]

@[simp] theorem get?_set_self (k : κ) (a : α) (d : OrderedMap κ α) :
    (d.set k a).get? k = some a := by
  simp [get?_set]

theorem keys_set (k : κ) (a : α) (d : OrderedMap κ α) :
    (d.set k a).keys = if k ∈ d.keys then d.keys else d.keys ++ [k] := by
  induction d with
  | nil => simp [set, keys]
  | cons p d ih =>
    obtain ⟨m, b⟩ := p
    by_cases h : k = m
    · subst h; simp [set, keys]
    · simp only [keys] at ih
      simp only [set, h, if_false, keys, List.map_cons, List.mem_cons, false_or, ih]
      split <;> simp_all

end OrderedMap
end Stepper
