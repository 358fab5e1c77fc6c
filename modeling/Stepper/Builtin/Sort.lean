/-!
Sorting by comparisons that are actions. Ascending and strictly descending runs are found and, where
short, filled up by binary insertion; runs are merged in the order of their powers, and a merge
searches by growing steps while one side keeps winning. Which comparisons are made, and in which
order, is part of the definition, since a comparison may have effects.
-/
namespace Stepper.Builtin.Sort

variable {m : Type → Type} [Monad m] {α : Type}

/-! ### Runs -/

/-- The length of the strictly descending, or else the ascending, run that goes on from `x`. -/
def runLength (less : α → α → m Bool) (descending : Bool) (x : α) : List α → m Nat
  | [] => pure 0
  | y :: ys => do
    if (← less y x) == descending then return 1 + (← runLength less descending y ys)
    else return 0

/-- The first run, ascending: its members and how many there are. -/
def firstRun (less : α → α → m Bool) : List α → m (List α × List α)
  | [] => pure ([], [])
  | [x] => pure ([x], [])
  | x :: y :: ys => do
    let descending ← less y x
    let n := 2 + (← runLength less descending y ys)
    let xs := x :: y :: ys
    let run := xs.take n
    return (if descending then run.reverse else run, xs.drop n)

/-- Where `pivot` goes among ordered members: behind those that are not greater, found by halving.
-/
def insertionPoint (less : α → α → m Bool) (xs : Array α) (pivot : α) : Nat → Nat → Nat → m Nat
  | 0, lo, _ => pure lo
  | fuel + 1, lo, hi =>
    if lo < hi then do
      let mid := lo + (hi - lo) / 2
      match xs[mid]? with
      | none => pure lo
      | some x =>
        if ← less pivot x then insertionPoint less xs pivot fuel lo mid
        else insertionPoint less xs pivot fuel (mid + 1) hi
    else pure lo

/-- Puts further members into an ordered run. -/
def insertAll (less : α → α → m Bool) (run : Array α) : List α → m (Array α)
  | [] => pure run
  | x :: xs => do
    let i ← insertionPoint less run x (run.size + 1) 0 run.size
    insertAll less (run.extract 0 i ++ #[x] ++ run.extract i run.size) xs

/-- The least length of a run: the first six bits of the count, rounded up. -/
def minRun : Nat → Nat → Nat → Nat
  | 0, n, _ => n
  | fuel + 1, n, r => if 64 ≤ n then minRun fuel (n / 2) (if n % 2 == 1 then 1 else r) else n + r

/-! ### Searching by growing steps -/

/-- The least step that is not taken, and the last one that was, starting at one. -/
def grow (goesOn : Nat → m Bool) (bound : Nat) : Nat → Nat → Nat → m (Nat × Nat)
  | 0, last, step => pure (last, min step bound)
  | fuel + 1, last, step =>
    if step < bound then do
      if ← goesOn step then grow goesOn bound fuel step (2 * step + 1) else pure (last, step)
    else pure (last, min step bound)

/-- The least index in `[lo, hi]` from which on `isBehind` fails. -/
def bisect (isBehind : Nat → m Bool) : Nat → Nat → Nat → m Nat
  | 0, lo, _ => pure lo
  | fuel + 1, lo, hi =>
    if lo < hi then do
      let mid := lo + (hi - lo) / 2
      if ← isBehind mid then bisect isBehind fuel (mid + 1) hi else bisect isBehind fuel lo mid
    else pure lo

/-- The least index that `isBefore` does not hold at, sought from `hint` on in growing steps to both
sides. -/
def gallop (isBefore : Nat → m Bool) (n hint : Nat) : m Nat := do
  if ← isBefore hint then
    let (last, step) ← grow (fun k => isBefore (hint + k)) (n - hint) (n + 1) 0 1
    bisect isBefore (n + 1) (hint + last + 1) (hint + step)
  else
    let (last, step) ← grow (fun k => do return !(← isBefore (hint - k))) (hint + 1) (n + 1) 0 1
    bisect isBefore (n + 1) (hint + 1 - step) (hint - last)

/-- Where `key` goes before the members that are not less. -/
def gallopLeft (less : α → α → m Bool) (key : α) (xs : Array α) (hint : Nat) : m Nat :=
  gallop (fun i => match xs[i]? with
    | some x => less x key
    | none => pure false) xs.size hint

/-- Where `key` goes behind the members that are not greater. -/
def gallopRight (less : α → α → m Bool) (key : α) (xs : Array α) (hint : Nat) : m Nat :=
  gallop (fun i => match xs[i]? with
    | some x => do return !(← less key x)
    | none => pure false) xs.size hint

/-! ### Merging -/

/-- How many wins in a row start a search. -/
def minGallop : Nat := 7

/-- Merged members, and how many wins in a row now start a search. -/
structure Merged (α : Type) where
  members : List α
  patience : Nat

/-- The state of a merge: what both sides still hold, what is merged (latest first), how often each
side has just won, and the patience. -/
structure Merging (α : Type) where
  left : List α
  right : List α
  out : List α
  leftWins : Nat
  rightWins : Nat
  patience : Nat

/-- Leaving a search makes the next one start later. -/
def Merging.afterSearch (s : Merging α) : Merging α :=
  { s with leftWins := 0, rightWins := 0, patience := s.patience + 1 }

/-- A merge from the front ends when the right side is used up, or with one member on the left. -/
def Merging.frontEnd? (s : Merging α) : Option (Merged α) :=
  match s.right, s.left with
  | [], left => some ⟨s.out.reverse ++ left, s.patience⟩
  | right, [] => some ⟨s.out.reverse ++ right, s.patience⟩
  | right, [x] => some ⟨s.out.reverse ++ right ++ [x], s.patience⟩
  | _, _ => none

/-- One member from the front. -/
def stepFront (less : α → α → m Bool) (s : Merging α) : m (Merging α) := do
  match s.left, s.right with
  | x :: left, y :: right =>
    if ← less y x then
      return { s with right, out := y :: s.out, leftWins := 0, rightWins := s.rightWins + 1 }
    else
      return { s with left, out := x :: s.out, leftWins := s.leftWins + 1, rightWins := 0 }
  | _, _ => return s

/-- A search on both sides from the front. The wins count what each search found. -/
def searchFront (less : α → α → m Bool) (s : Merging α) : m (Merged α ⊕ Merging α) := do
  let s := { s with patience := s.patience - (if 1 < s.patience then 1 else 0) }
  match s.right with
  | [] => return .inr s
  | y :: right =>
    let k ← gallopRight less y s.left.toArray 0
    let s := { s with
      left := s.left.drop k, out := (s.left.take k).reverse ++ s.out, leftWins := k }
    let early := if k = 0 then none else s.frontEnd?
    if let some e := early then return .inl e
    let s := { s with right, out := y :: s.out }
    match s.left with
    | [] => return .inr s
    | x :: left =>
      if s.right.isEmpty then return .inr s
      let k ← gallopLeft less x s.right.toArray 0
      let s := { s with
        right := s.right.drop k, out := (s.right.take k).reverse ++ s.out, rightWins := k }
      if s.right.isEmpty then return .inr s
      return .inr { s with left, out := x :: s.out }

/-- Merges from the front; `searching` says in which way. -/
def mergeFront (less : α → α → m Bool) : Nat → Bool → Merging α → m (Merged α)
  | 0, _, s => pure ⟨s.out.reverse ++ s.left ++ s.right, s.patience⟩
  | fuel + 1, searching, s => do
    match s.frontEnd? with
    | some e => return e
    | none =>
      if searching then
        match ← searchFront less s with
        | .inl e => return e
        | .inr s =>
          match s.frontEnd? with
          | some e => return e
          | none =>
            if minGallop ≤ s.leftWins || minGallop ≤ s.rightWins then mergeFront less fuel true s
            else mergeFront less fuel false s.afterSearch
      else
        let s ← stepFront less s
        match s.frontEnd? with
        | some e => return e
        | none =>
          if s.patience ≤ max s.leftWins s.rightWins then
            mergeFront less fuel true { s with patience := s.patience + 1 }
          else mergeFront less fuel false s

/-- Merges two runs from the front. The first member of the right side is known to be the least. -/
def mergeLow (less : α → α → m Bool) (patience : Nat) (left right : List α) : m (Merged α) :=
  match right with
  | [] => pure ⟨left, patience⟩
  | y :: right =>
      mergeFront less (2 * (left.length + right.length) + 4) false
        ⟨left, right, [y], 0, 0, patience⟩

/-- A merge from the back holds both sides with the last member first. It ends when the left side is
used up, or with one member on the right. -/
def Merging.backEnd? (s : Merging α) : Option (Merged α) :=
  match s.left, s.right with
  | [], right => some ⟨right.reverse ++ s.out, s.patience⟩
  | left, [] => some ⟨left.reverse ++ s.out, s.patience⟩
  | left, [y] => some ⟨y :: left.reverse ++ s.out, s.patience⟩
  | _, _ => none

def stepBack (less : α → α → m Bool) (s : Merging α) : m (Merging α) := do
  match s.left, s.right with
  | x :: left, y :: right =>
    if ← less y x then
      return { s with left, out := x :: s.out, leftWins := s.leftWins + 1, rightWins := 0 }
    else
      return { s with right, out := y :: s.out, leftWins := 0, rightWins := s.rightWins + 1 }
  | _, _ => return s

def searchBack (less : α → α → m Bool) (s : Merging α) : m (Merged α ⊕ Merging α) := do
  let s := { s with patience := s.patience - (if 1 < s.patience then 1 else 0) }
  match s.right with
  | [] => return .inr s
  | y :: right =>
    let n := s.left.length
    let k := n - (← gallopRight less y s.left.reverse.toArray (n - 1))
    let s := { s with
      left := s.left.drop k, out := (s.left.take k).reverse ++ s.out, leftWins := k }
    if s.left.isEmpty then return .inr s
    let s := { s with right, out := y :: s.out }
    match s.left with
    | [] => return .inr s
    | x :: left =>
      if s.right.length ≤ 1 then return .inr s
      let n := s.right.length
      let k := n - (← gallopLeft less x s.right.reverse.toArray (n - 1))
      let s := { s with
        right := s.right.drop k, out := (s.right.take k).reverse ++ s.out, rightWins := k }
      let early := if k = 0 then none else s.backEnd?
      if let some e := early then return .inl e
      return .inr { s with left, out := x :: s.out }

def mergeBack (less : α → α → m Bool) : Nat → Bool → Merging α → m (Merged α)
  | 0, _, s => pure ⟨s.left.reverse ++ s.right.reverse ++ s.out, s.patience⟩
  | fuel + 1, searching, s => do
    match s.backEnd? with
    | some e => return e
    | none =>
      if searching then
        match ← searchBack less s with
        | .inl e => return e
        | .inr s =>
          match s.backEnd? with
          | some e => return e
          | none =>
            if minGallop ≤ s.leftWins || minGallop ≤ s.rightWins then mergeBack less fuel true s
            else mergeBack less fuel false s.afterSearch
      else
        let s ← stepBack less s
        match s.backEnd? with
        | some e => return e
        | none =>
          if s.patience ≤ max s.leftWins s.rightWins then
            mergeBack less fuel true { s with patience := s.patience + 1 }
          else mergeBack less fuel false s

/-- Merges two runs from the back. The last member of the left side is known to be the greatest. -/
def mergeHigh (less : α → α → m Bool) (patience : Nat) (left right : List α) : m (Merged α) :=
  match left.reverse with
  | [] => pure ⟨right, patience⟩
  | x :: left' =>
    mergeBack less (2 * (left.length + right.length) + 4) false
      ⟨left', right.reverse, [x], 0, 0, patience⟩

/-- Merges two neighbouring runs. What is in place on both ends stays there. -/
def mergeRuns (less : α → α → m Bool) (patience : Nat) (left right : List α) : m (Merged α) := do
  match right with
  | [] => return ⟨left, patience⟩
  | y :: _ =>
    let k ← gallopRight less y left.toArray 0
    let head := left.take k
    let left := left.drop k
    match left.getLast? with
    | none => return ⟨head ++ right, patience⟩
    | some x =>
      let n ← gallopLeft less x right.toArray (right.length - 1)
      let tail := right.drop n
      let right := right.take n
      if right.isEmpty then return ⟨head ++ left ++ tail, patience⟩
      let merged ← if left.length ≤ right.length then mergeLow less patience left right
        else mergeHigh less patience left right
      return ⟨head ++ merged.members ++ tail, merged.patience⟩

/-! ### The order of merges -/

/-- A run that waits, with the power of the boundary behind it. -/
structure Run (α : Type) where
  members : List α
  length : Nat
  power : Nat

/-- The power of the boundary between two neighbouring runs: the first binary place in which their
midpoints differ, as fractions of the whole. -/
def boundaryPower (n : Nat) : Nat → Nat → Nat → Nat → Nat
  | 0, _, _, power => power
  | fuel + 1, a, b, power =>
    if n ≤ a then boundaryPower n fuel (2 * (a - n)) (2 * (b - n)) (power + 1)
    else if n ≤ b then power + 1
    else boundaryPower n fuel (2 * a) (2 * b) (power + 1)

/-- The runs found so far, the latest first, and the patience of merges. -/
structure Pending (α : Type) where
  runs : List (Run α)
  patience : Nat

/-- Merges the two latest runs while the boundary between them is deeper than `power`. -/
def collapseAbove (less : α → α → m Bool) (power : Nat) : Nat → Pending α → m (Pending α)
  | 0, p => pure p
  | fuel + 1, p =>
    match p.runs with
    | r :: q :: rs =>
      if power < q.power then do
        let merged ← mergeRuns less p.patience q.members r.members
        collapseAbove less power fuel
          ⟨⟨merged.members, q.length + r.length, q.power⟩ :: rs, merged.patience⟩
      else pure p
    | _ => pure p

/-- Puts a new run behind the others. -/
def pushRun (less : α → α → m Bool) (total : Nat) (p : Pending α) (start : Nat) (run : List α) :
    m (Pending α) := do
  let length := run.length
  let p ← match p.runs with
    | [] => pure p
    | r :: _ => do
      let a := 2 * (start - r.length) + r.length
      let power := boundaryPower total 128 a (a + r.length + length) 0
      let p ← collapseAbove less power p.runs.length p
      pure { p with runs := match p.runs with
        | r :: rs => { r with power } :: rs
        | [] => [] }
  return { p with runs := ⟨run, length, 0⟩ :: p.runs }

/-- Merges all runs. Of the last three the middle one goes to the shorter neighbour. -/
def collapseAll (less : α → α → m Bool) : Nat → Pending α → m (List α)
  | 0, p => pure (p.runs.reverse.flatMap Run.members)
  | fuel + 1, p =>
    match p.runs with
    | [] => pure []
    | [r] => pure r.members
    | r :: q :: t :: rs =>
      if t.length < r.length then do
        let merged ← mergeRuns less p.patience t.members q.members
        collapseAll less fuel
          ⟨r :: ⟨merged.members, t.length + q.length, t.power⟩ :: rs, merged.patience⟩
      else do
        let merged ← mergeRuns less p.patience q.members r.members
        collapseAll less fuel
          ⟨⟨merged.members, q.length + r.length, q.power⟩ :: t :: rs, merged.patience⟩
    | [r, q] => do
      let merged ← mergeRuns less p.patience q.members r.members
      pure merged.members

/-- Cuts the rest into runs. -/
def sortRuns (less : α → α → m Bool) (total least : Nat) :
    Nat → Nat → List α → Pending α → m (Pending α)
  | 0, _, _, p => pure p
  | _ + 1, _, [], p => pure p
  | fuel + 1, start, x :: xs, p => do
    let (run, rest) ← firstRun less (x :: xs)
    let more := min (least - run.length) rest.length
    let run ← if run.length < least then
        do pure (← insertAll less run.toArray (rest.take more)).toList
      else pure run
    let p ← pushRun less total p start run
    sortRuns less total least fuel (start + run.length) (rest.drop more) p

/-- The members in order; those that compare alike stay as they are. -/
def sort (less : α → α → m Bool) (xs : List α) : m (List α) := do
  let n := xs.length
  if n < 2 then return xs
  let p ← sortRuns less n (minRun (n + 1) n 0) n 0 xs ⟨[], minGallop⟩
  collapseAll less n p

end Stepper.Builtin.Sort
