import Stepper.Calendar.Date

/-!
Reading dates with a time: a calendar date or a date by weeks, with hyphens or without, then any one
character, a time with colons or without, a fraction of a second and an offset from universal time.
The place of the character between date and time is found from the form of the date.
-/
namespace Stepper.Calendar

open Binary64

def isDigit (c : Nat) : Bool := 0x30 ≤ c && c ≤ 0x39

/-- The octets of a text; none if it holds a surrogate. -/
def octets? : Text → Option (List Nat)
  | [] => some []
  | c :: t => do
    let rest ← octets? t
    if Text.isSurrogate c then none
    else if c < 0x80 then some (c :: rest)
    else if c < 0x800 then some ((0xc0 + c / 64) :: (0x80 + c % 64) :: rest)
    else if c < 0x10000 then
      some ((0xe0 + c / 4096) :: (0x80 + c / 64 % 64) :: (0x80 + c % 64) :: rest)
    else
      some ((0xf0 + c / 262144) :: (0x80 + c / 4096 % 64) :: (0x80 + c / 64 % 64) ::
        (0x80 + c % 64) :: rest)

/-- A number of a fixed count of digits, and what follows. -/
def takeNumber? (n : Nat) (t : List Nat) : Option (Nat × List Nat) :=
  let ds := t.take n
  if ds.length = n ∧ ds.all isDigit then
    some (Number.ofDigits 10 (ds.map fun d => d - 0x30), t.drop n)
  else none

/-- The octet at a place; zero behind the end. -/
def at_ (t : List Nat) (i : Nat) : Nat := t.getD i 0

/-- Where the date ends. -/
def dateEnd? (t : List Nat) : Option Nat :=
  let n := t.length
  if n = 7 then some 7
  else if at_ t 4 = 0x2d then
    if at_ t 5 = 0x57 then
      if 8 < n ∧ at_ t 8 = 0x2d then
        if n = 9 then none
        else if 10 < n ∧ isDigit (at_ t 10) then some 8
        else some 10
      else some 8
    else some 10
  else if at_ t 4 = 0x57 then
    let digits := ((t.drop 7).takeWhile isDigit).length
    let stop := 7 + digits
    if stop < 9 then some stop else if stop % 2 = 0 then some 7 else some 8
  else some 8

/-- The day on which the first week of a year begins: the one with its first Thursday. -/
def firstMonday (year : Int) : Int :=
  let first := (Date.mk year 1 1).toDays
  let fromMonday := (first + 3) % 7
  let monday := first - fromMonday
  if 3 < fromMonday then monday + 7 else monday

def hasWeek53 (year : Int) : Bool :=
  let first := ((Date.mk year 1 1).toDays + 3) % 7
  first == 3 || (first == 2 && isLeap year)

/-- The date of a day of a week. -/
def dateOfWeek? (year : Int) (week day : Nat) : Option Date :=
  if year < 1 ∨ 9999 < year then none
  else if week = 0 ∨ 53 < week ∨ (week = 53 ∧ !hasWeek53 year) then none
  else if day = 0 ∨ 7 < day then none
  else some (Date.ofDays (firstMonday year + (week - 1) * 7 + day - 1))

/-- The date at the front, which has to end at `stop`. -/
def readDate? (t : List Nat) (stop : Nat) : Option Date := do
  let (year, r) ← takeNumber? 4 t
  let hyphens := r.head? == some 0x2d
  let r := if hyphens then r.drop 1 else r
  if r.head? == some 0x57 then
    let (week, r) ← takeNumber? 2 (r.drop 1)
    if t.length - r.length < stop then
      if hyphens && r.head? != some 0x2d then none
      let (day, _) ← takeNumber? 1 (if hyphens then r.drop 1 else r)
      dateOfWeek? year week day
    else dateOfWeek? year week 1
  else
    let (month, r) ← takeNumber? 2 r
    if hyphens && r.head? != some 0x2d then none
    let (day, r) ← takeNumber? 2 (if hyphens then r.drop 1 else r)
    if t.length - r.length = stop then some ⟨year, month, day⟩ else none

structure Clock where
  hour : Nat
  minute : Nat
  second : Nat
  microsecond : Nat

/-- The digits of a fraction as millionths; digits past the sixth do not count. `width` octets
belong to the time, and what follows them decides whether it is complete. -/
def readFraction? (t : List Nat) (width : Nat) : Option (Nat × Bool) := do
  let n := min width 6
  let (v, r) ← takeNumber? n t
  if n = 0 then none
  let r := r.dropWhile isDigit
  return (v * Nat.pow 10 (6 - n), r.isEmpty)

/-- Two digits at a time, from part `i` on; `width` octets of `t` belong to the time. Also whether
the whole rest was read. -/
def readParts? (colons : Bool) (parts : List Nat) :
    Nat → List Nat → Nat → Option (List Nat × Nat × Bool)
  | 0, t, width => do
    let (v, full) ← readFraction? t width
    return (parts.reverse, v, full)
  | left + 1, t, width => do
    let (v, r) ← takeNumber? 2 t
    let parts := v :: parts
    let c := r.head?
    let colons := if parts.length = 1 then c == some 0x3a else colons
    if width ≤ 3 then return (parts.reverse, 0, c.isNone)
    if colons && c == some 0x3a then readParts? colons parts left (r.drop 1) (width - 3)
    else if c == some 0x2e || c == some 0x2c then
      let (v, full) ← readFraction? (r.drop 1) (width - 3)
      return (parts.reverse, v, full)
    else if !colons then readParts? colons parts left r (width - 2)
    else none

def readClock? (t : List Nat) (width : Nat) : Option (Clock × Bool) := do
  let (parts, micros, full) ← readParts? true [] 3 t width
  return (⟨parts.getD 0 0, parts.getD 1 0, parts.getD 2 0, micros⟩, full)

def Clock.micros (c : Clock) : Int :=
  ((c.hour * 3600 + c.minute * 60 + c.second) * 1000000 + c.microsecond : Nat)

def Clock.isValid (c : Clock) : Bool := c.hour < 24 && c.minute < 60 && c.second < 60

def isOffsetSign (c : Nat) : Bool := c == 0x2b || c == 0x2d

/-- Where the offset begins: a sign at the very front counts, too. -/
def offsetStart (t : List Nat) : Nat := (t.takeWhile fun c => !isOffsetSign c).length

/-- A time and its offset in microseconds. -/
def readTime? (t : List Nat) : Option (Clock × Int) := do
  let n := offsetStart t
  let (clock, full) ← readClock? t n
  match t.drop n with
  | [] => if full then some (clock, 0) else none
  | sign :: r =>
    let (offset, full) ← readClock? r r.length
    if !full then none
    let size := offset.micros
    if 86400000000 ≤ size then none
    return (clock, if sign = 0x2d then -size else size)

/-- The number of octets of the character that begins with an octet. -/
def octetsOf (c : Nat) : Nat :=
  if c < 0x80 then 1 else if c / 16 = 0xe then 3 else if c / 16 = 0xf then 4 else 2

/-- A surrogate between date and time counts as any other character. -/
def withoutSeparatorSurrogate (t : Text) : Text :=
  match [7, 8, 10].find? fun i => Text.isSurrogate (t.getD i 0) with
  | some i => t.set i 0x54
  | none => t

/-- The microseconds since the first of January 1970 that a text stands for. -/
def readMicros? (t : Text) : Option Int := do
  if t.length < 7 then none
  let bytes ← octets? (withoutSeparatorSurrogate t)
  let stop ← dateEnd? bytes
  let date ← readDate? bytes stop
  let r := bytes.drop stop
  let (clock, offset) ← if !r.isEmpty then readTime? (r.drop (octetsOf (r.headD 0)))
    else some (⟨0, 0, 0, 0⟩, 0)
  if !date.isValid || !clock.isValid then none
  return date.toDays * 86400000000 + clock.micros - offset

/-- The text with an offset of zero in place of every `Z`. -/
def withoutZulu (t : Text) : Text :=
  t.flatMap fun c => if c = 0x5a then Text.ofString "+00:00" else [c]

/-- The milliseconds that a text stands for; NaN when it is no date. -/
def milliseconds (t : Text) : Float :=
  match readMicros? (withoutZulu t) with
  | none => nan
  | some micros =>
    let seconds := negateIf (micros < 0) (ofRatio micros.natAbs 1000000)
    match floor? (seconds * ofNat 1000) with
    | some n => ofInt n
    | none => nan

end Stepper.Calendar
