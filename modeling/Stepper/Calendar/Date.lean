import Stepper.Fault
import Stepper.Number.Digits
import Stepper.Number.Binary64

/-!
The Gregorian calendar, reckoned in days from the first of January 1970, and moments with a
microsecond's resolution. A calendar date has a year from 1 to 9999.
-/
namespace Stepper.Calendar

open Binary64

structure Date where
  year : Int
  month : Nat
  day : Nat
  deriving DecidableEq, Repr

def isLeap (year : Int) : Bool := year % 4 == 0 && (year % 100 != 0 || year % 400 == 0)

def daysInMonth (year : Int) (month : Nat) : Nat :=
  if month = 2 then (if isLeap year then 29 else 28)
  else if month = 4 ∨ month = 6 ∨ month = 9 ∨ month = 11 then 30 else 31

def Date.isValid (d : Date) : Bool :=
  1 ≤ d.year && d.year ≤ 9999 && 1 ≤ d.month && d.month ≤ 12 && 1 ≤ d.day &&
    d.day ≤ daysInMonth d.year d.month

/-- The day of a date. Years are counted from March here, so that a leap day ends one. -/
def Date.toDays (d : Date) : Int :=
  let y := if d.month ≤ 2 then d.year - 1 else d.year
  let era := y / 400
  let yearOfEra := y - era * 400
  let shifted : Int := if 2 < d.month then d.month - 3 else d.month + 9
  let dayOfYear := (153 * shifted + 2) / 5 + d.day - 1
  era * 146097 + (yearOfEra * 365 + yearOfEra / 4 - yearOfEra / 100 + dayOfYear) - 719468

/-- The date of a day. -/
def Date.ofDays (days : Int) : Date :=
  let z := days + 719468
  let era := z / 146097
  let dayOfEra := z - era * 146097
  let yearOfEra := (dayOfEra - dayOfEra / 1460 + dayOfEra / 36524 - dayOfEra / 146096) / 365
  let dayOfYear := dayOfEra - (365 * yearOfEra + yearOfEra / 4 - yearOfEra / 100)
  let shifted := (5 * dayOfYear + 2) / 153
  let day := dayOfYear - (153 * shifted + 2) / 5 + 1
  let month := if shifted < 10 then shifted + 3 else shifted - 9
  let year := yearOfEra + era * 400 + (if month ≤ 2 then 1 else 0)
  ⟨year, month.toNat, day.toNat⟩

/-- The day of the week, Sunday being zero. -/
def weekday (days : Int) : Nat := ((days + 4) % 7).toNat

/-- A moment of a day. -/
structure Moment where
  days : Int
  second : Nat
  microsecond : Nat
  deriving DecidableEq, Repr

namespace Moment

def date (m : Moment) : Date := Date.ofDays m.days
def hour (m : Moment) : Nat := m.second / 3600
def minute (m : Moment) : Nat := m.second / 60 % 60
def secondOfMinute (m : Moment) : Nat := m.second % 60
def millisecond (m : Moment) : Nat := m.microsecond / 1000

/-- The nearest integer, halves to the even neighbour. -/
def nearest (x : Float) : Int :=
  match decode x with
  | .finite s m q =>
    withSign s (if 0 ≤ q then m * Nat.pow 2 q.toNat else roundDiv m (Nat.pow 2 (-q).toNat))
  | _ => 0

/-- The moment of a finite count of milliseconds: whole seconds first, the rest in microseconds. -/
def ofMilliseconds? (x : Float) : Except Fault Moment :=
  let t := x / ofNat 1000
  match truncate? t with
  | none => .error .dateOutOfRange
  | some whole =>
    let micros := nearest ((t - ofInt whole) * ofNat 1000000)
    let (seconds, micros) :=
      if 1000000 ≤ micros then (whole + 1, micros - 1000000)
      else if micros < 0 then (whole - 1, micros + 1000000)
      else (whole, micros)
    let days := seconds / 86400
    let year := (Date.ofDays days).year
    if year < 1 ∨ 9999 < year then .error .dateOutOfRange
    else .ok ⟨days, (seconds % 86400).toNat, micros.toNat⟩

def padded (width n : Nat) : Text :=
  let t := Number.natText 10 n
  List.replicate (width - t.length) 0x30 ++ t

def dayNames : List String := ["Sun", "Mon", "Tue", "Wed", "Thu", "Fri", "Sat"]

def monthNames : List String :=
  ["Jan", "Feb", "Mar", "Apr", "May", "Jun", "Jul", "Aug", "Sep", "Oct", "Nov", "Dec"]

def clockText (m : Moment) : Text :=
  padded 2 m.hour ++ (":" : Text) ++ padded 2 m.minute ++ (":" : Text) ++ padded 2 m.secondOfMinute

/-- The year, month and day in numbers, the time and its milliseconds. -/
def isoText (m : Moment) : Text :=
  let d := m.date
  Number.intText 10 d.year ++ ("-" : Text) ++ padded 2 d.month ++ ("-" : Text) ++ padded 2 d.day ++
    ("T" : Text) ++ m.clockText ++ ("." : Text) ++ padded 3 m.millisecond ++ ("Z" : Text)

/-- The day of the week, the date and the time in words. -/
def longText (m : Moment) : Text :=
  let d := m.date
  Text.ofString (dayNames.getD (weekday m.days) "") ++ (" " : Text) ++
    Text.ofString (monthNames.getD (d.month - 1) "") ++ (" " : Text) ++ padded 2 d.day ++
    (" " : Text) ++ Number.intText 10 d.year ++ (" " : Text) ++ m.clockText ++ (" GMT+0000" : Text)

end Moment
end Stepper.Calendar
