import Stepper.Proofs.Collecting
import Stepper.Proofs.Sorting.Searching
import Stepper.Proofs.Written

/-!
How often the walks over an array call their callback. A fold goes through the indices that there
were when it began, so whatever the callback does to the array, it is called at most once for each.
The other walks look for the end of the array at every turn. They stay within its first length as
long as the callback keeps it there; where nothing is taken away, `map` gives an answer for every
element that there is in the end; and where every call makes the array longer, no walk that goes on
at every answer comes to a value.
-/
namespace Stepper.Machine.Action

variable {α β : Type} {c : Context} {w : World}

/-- A loop whose rounds keep an invariant and leave less to do comes to its end. -/
theorem loop_comes {body : α → Action (α ⊕ β)} {Q : β → World → Prop}
    {J : Interrupt → World → Prop} (I : α → World → Prop) (todo : α → Nat)
    (hbody : ∀ a w, I a w → (body a c w).Comes (fun x v =>
      (∃ a', x = .inl a' ∧ I a' v ∧ todo a' < todo a) ∨ ∃ b, x = .inr b ∧ Q b v) J)
    {fuel : Nat} {a : α} (hfuel : todo a < fuel) (ha : I a w) :
    (loop body fuel a c w).Comes Q J := by
  induction fuel generalizing a w with
  | zero => omega
  | succ fuel ih =>
    rw [loop_succ]
    refine (hbody a w ha).bind fun x v hx => ?_
    rcases hx with ⟨a', rfl, ha', hlt⟩ | ⟨b, rfl, hb⟩
    · exact ih (by omega) ha'
    · exact hb

/-- Wherever a loop comes to a value its last round did, after rounds that kept an invariant. -/
theorem loop_ends {body : α → Action (α ⊕ β)} {Q : β → World → Prop} (I : α → World → Prop)
    (hbody : ∀ a w, I a w → (body a c w).Ends fun x v =>
      (∃ a', x = .inl a' ∧ I a' v) ∨ ∃ b, x = .inr b ∧ Q b v)
    (fuel : Nat) {a : α} (ha : I a w) : (loop body fuel a c w).Ends Q := by
  induction fuel generalizing a w with
  | zero => trivial
  | succ fuel ih =>
    rw [loop_succ]
    refine (hbody a w ha).bind fun x v hx => ?_
    rcases hx with ⟨a', rfl, ha'⟩ | ⟨b, rfl, hb⟩
    · exact ih ha'
    · exact hb

end Stepper.Machine.Action

namespace Stepper.Builtin

open Machine Machine.Action

/-- How many elements an array has in a state. -/
def size (r : Ref) (w : World) : Nat := (w.heap.get r).elements.size

section

variable {α β : Type} {c : Context} {w : World} {r : Ref} {f thisArg : Value} {start : α}
  {step : α → Nat → Value → Value → α ⊕ β} {finish : α → β}
  {count : World → Nat} {J : Interrupt → Prop} {n : Nat}

theorem read_elements : elementsOf r c w = .done (w.heap.get r).elements w := rfl

/-- A fold calls its callback at most once for each index, whatever the calls do to the array: what
a call raises by at most one is raised at most so often. Nothing else cuts the fold short. -/
theorem reduceOver_comes
    (hcall : ∀ args w, (call f .undefined args c w).Comes (fun _ v => count v ≤ count w + 1)
      fun i v => count v ≤ count w + 1 ∧ J i)
    {indices : List Nat} (hlength : indices.length < maxRounds) (a : Value) :
    (reduceOver r f a indices c w).Comes (fun _ v => count v ≤ count w + indices.length)
      fun i v => count v ≤ count w + indices.length ∧ J i := by
  refine loop_comes (fun s v => count v + s.2.length ≤ count w + indices.length)
    (fun s => s.2.length) (fun s v hs => ?_) hlength le_rfl
  obtain ⟨a, is⟩ := s
  cases is with
  | nil => exact .inr ⟨a, rfl, hs⟩
  | cons i is =>
    dsimp only [List.length_cons] at hs ⊢
    rw [bind_of_done read_elements]
    cases (v.heap.get r).elements[i]? with
    | none => exact .inl ⟨_, rfl, by dsimp only; omega, by dsimp only; omega⟩
    | some x =>
      refine Course.Comes.bind ((hcall _ v).imp (fun _ _ => id) fun i u hu => ⟨by omega, hu.2⟩)
        fun b u hu => .inl ⟨_, rfl, ?_, ?_⟩ <;> dsimp only <;> omega

/-- One turn of a walk. -/
def turn (r : Ref) (f thisArg : Value) (step : α → Nat → Value → Value → α ⊕ β) (finish : α → β)
    (s : Nat × α) : Action ((Nat × α) ⊕ β) := do
  match (← elementsOf r)[s.1]? with
  | none => return .inr (finish s.2)
  | some v =>
    let answer ← call f thisArg [v, natValue s.1, .object r]
    match step s.2 s.1 v answer with
    | .inl acc => return .inl (s.1 + 1, acc)
    | .inr b => return .inr b

theorem overElements_eq : overElements r f thisArg start step finish =
    repeating (0, start) (turn r f thisArg step finish) := rfl

theorem turn_at_end {s : Nat × α} (h : size r w ≤ s.1) :
    turn r f thisArg step finish s c w = .done (.inr (finish s.2)) w := by
  have hnone : (w.heap.get r).elements[s.1]? = none := Array.getElem?_eq_none h
  unfold turn
  rw [bind_of_done read_elements, hnone]
  rfl

/-- Within the array a turn is a call, and it goes on with the next element or ends the walk. -/
theorem turn_inside (f thisArg : Value) (step : α → Nat → Value → Value → α ⊕ β) (finish : α → β)
    (c : Context) {s : Nat × α} (h : s.1 < size r w) : ∃ v : Value,
    turn r f thisArg step finish s c w =
      (call f thisArg [v, natValue s.1, .object r] c w).bind fun a w' =>
        .done ((step s.2 s.1 v a).elim (fun acc => .inl (s.1 + 1, acc)) .inr) w' := by
  have hsome : (w.heap.get r).elements[s.1]? = some (w.heap.get r).elements[s.1] :=
    Array.getElem?_eq_getElem h
  refine ⟨(w.heap.get r).elements[s.1], ?_⟩
  unfold turn
  rw [bind_of_done read_elements, hsome]
  change Course.bind _ _ = _
  congr 1
  funext a w'
  dsimp only
  cases step s.2 s.1 (w.heap.get r).elements[s.1] a with
  | inl acc => rfl
  | inr b => rfl

/-- While its calls keep the array within some length, a walk makes at most so many of them, and
nothing else cuts it short. -/
theorem overElements_comes (hn : n < maxRounds)
    (hcall : ∀ args w, size r w ≤ n → (call f thisArg args c w).Comes
      (fun _ v => size r v ≤ n ∧ count v ≤ count w + 1) fun i v => count v ≤ count w + 1 ∧ J i)
    (hw : size r w ≤ n) : (overElements r f thisArg start step finish c w).Comes
      (fun _ v => count v ≤ count w + n) fun i v => count v ≤ count w + n ∧ J i := by
  rw [overElements_eq]
  refine loop_comes (fun s v => s.1 ≤ n ∧ size r v ≤ n ∧ count v ≤ count w + s.1)
    (fun s => n - s.1) (fun s v hs => ?_) (by simpa using hn) ⟨n.zero_le, hw, by simp⟩
  obtain ⟨hi, hsize, hcount⟩ := hs
  rcases Nat.lt_or_ge s.1 (size r v) with h | h
  · obtain ⟨x, hturn⟩ := turn_inside f thisArg step finish c h
    rw [hturn]
    refine ((hcall _ v hsize).imp (fun _ _ => id) fun i u hu => ⟨by omega, hu.2⟩).bind
      fun a u hu => ?_
    cases step s.2 s.1 x a with
    | inl acc => exact .inl ⟨(s.1 + 1, acc), rfl, ⟨by omega, hu.1, by omega⟩, by omega⟩
    | inr b => exact .inr ⟨b, rfl, by omega⟩
  · rw [turn_at_end h]
    exact .inr ⟨_, rfl, by omega⟩

/-- Where every call makes the array longer, a walk that goes on at every answer never ends. -/
theorem overElements_never_ends {next : α → Nat → Value → Value → α}
    (hcall : ∀ args w, (call f thisArg args c w).Ends fun _ v => size r w < size r v)
    (hw : 0 < size r w) :
    (overElements r f thisArg start (fun acc i v a => .inl (next acc i v a)) finish c w).Ends
      fun (_ : β) _ => False := by
  refine loop_ends (fun s v => s.1 < size r v) (fun s v hs => ?_) _ hw
  obtain ⟨x, hturn⟩ := turn_inside f thisArg
    (fun acc i v a => (.inl (next acc i v a) : α ⊕ β)) finish c hs
  change (turn r f thisArg (fun acc i v a => (.inl (next acc i v a) : α ⊕ β)) finish s c v).Ends _
  rw [hturn]
  exact (hcall _ v).bind fun a u hu => .inl ⟨_, rfl, by change s.1 + 1 < _; omega⟩

end

section

variable {c : Context} {w : World} {r : Ref} {args : List Value} {P : World → Prop}

/-- Where no call takes anything away, `map` has an answer for every element there is in the end. -/
theorem mapElements_ends
    (hcall : ∀ xs w, P w → (call (arg args 0) (arg args 1) xs c w).Ends fun _ v =>
      P v ∧ size r w ≤ size r v) (hw : P w) :
    (mapElements r args c w).Ends fun answers v => answers.length = size r v ∧ P v := by
  refine (callback_ends _ c w).bind fun _ v hv => ?_
  refine loop_ends (fun s v => s.2.length = s.1 ∧ s.1 ≤ size r v ∧ P v) (fun s v hs => ?_) _
    ⟨rfl, Nat.zero_le _, hv ▸ hw⟩
  obtain ⟨hlength, hi, hP⟩ := hs
  change (turn r (arg args 0) (arg args 1)
    (fun acc _ _ a => (.inl (a :: acc) : List Value ⊕ List Value)) List.reverse s c v).Ends _
  rcases Nat.lt_or_ge s.1 (size r v) with h | h
  · obtain ⟨x, hturn⟩ := turn_inside (arg args 0) (arg args 1)
      (fun acc _ _ a => (.inl (a :: acc) : List Value ⊕ List Value)) List.reverse c h
    rw [hturn]
    refine (hcall _ v hP).bind fun a u hu => .inl ⟨_, rfl, ?_, ?_, hu.1⟩
    · simp [hlength]
    · change s.1 + 1 ≤ size r u
      omega
  · rw [turn_at_end h]
    exact .inr ⟨_, rfl, by rw [List.length_reverse]; omega, hP⟩

/-- With a callback that leaves the array as long as it is, `map` has an answer for each element. -/
theorem mapElements_length (hcall : ∀ xs w,
      (call (arg args 0) (arg args 1) xs c w).Ends fun _ v => size r v = size r w) :
    (mapElements r args c w).Ends fun answers _ => answers.length = size r w :=
  (mapElements_ends (P := fun v => size r v = size r w)
    (fun xs v hv => (hcall xs v).imp fun _ _ hu => ⟨hu.trans hv, hu.ge⟩) rfl).imp
    fun _ _ h => h.1.trans h.2

end
end Stepper.Builtin
