import Columnar.Calendar.Ticks
import Columnar.Text.Blank
import Columnar.Text.Digits

/-!
# Dates and times of day

Dates of the Gregorian calendar, carried back before its introduction, and times
of day to the nanosecond.  A leap second is the second after `23:59:59`, or after
any other full minute: its nanoseconds run on past `999999999`.

## Main definitions

* `CivilDate.dayNumber` — days since the start of 1970.
* `LocalTime.ticks?` — nanoseconds since then, as if there were no offset.
* `LocalTime.midnight?`, `LocalTime.joined?` — reading the text of a day, and that of a day and a
  time of day.
-/

namespace Columnar

/-- A day of the calendar. -/
structure CivilDate where
  year : Int
  month : Nat
  day : Nat
deriving DecidableEq, Repr

/-- A time of day.  In a leap second `nanosecond` is a full second or more. -/
structure TimeOfDay where
  hour : Nat
  minute : Nat
  second : Nat
  nanosecond : Nat
deriving DecidableEq, Repr

structure LocalTime where
  date : CivilDate
  time : TimeOfDay
deriving DecidableEq, Repr

namespace CivilDate

def isLeapYear (year : Int) : Bool := year % 4 = 0 ∧ (year % 100 ≠ 0 ∨ year % 400 = 0)

def daysInMonth (year : Int) (month : Nat) : Nat :=
  if month = 2 then (if isLeapYear year then 29 else 28)
  else if month = 4 ∨ month = 6 ∨ month = 9 ∨ month = 11 then 30
  else 31

/-- The date, if there is such a day. -/
def make? (year : Int) (month day : Nat) : Option CivilDate :=
  if 1 ≤ month ∧ month ≤ 12 ∧ 1 ≤ day ∧ day ≤ daysInMonth year month then
    some ⟨year, month, day⟩
  else none

/-- Days of the year before the first of a month. -/
def daysBefore (year : Int) : Nat → Nat
  | 0 => 0
  | 1 => 0
  | m + 1 => daysBefore year m + daysInMonth year m

/-- Days from the start of year zero to the start of a year. -/
def daysToYear (year : Int) : Int := 365 * year + (year + 3) / 4 - (year + 99) / 100 + (year + 399) / 400

/-- Days since the start of 1970. -/
def dayNumber (d : CivilDate) : Int :=
  daysToYear d.year - daysToYear 1970 + daysBefore d.year d.month + (d.day - 1)

/-- A year: up to four digits, or a sign and any number of them. -/
def takeYear : List Char → Option (Int × List Char)
  | '-' :: cs => do
    let (ds, rest) ← Text.takeDigits 1 cs.length cs
    return (-(Text.ofDigits ds : Int), rest)
  | '+' :: cs => do
    let (ds, rest) ← Text.takeDigits 1 cs.length cs
    return (Text.ofDigits ds, rest)
  | cs => do
    let (ds, rest) ← Text.takeDigits 1 4 cs
    return (Text.ofDigits ds, rest)

/-- One or two digits, with blanks before them. -/
def takeField (cs : List Char) : Option (Nat × List Char) := do
  let (ds, rest) ← Text.takeDigits 1 2 (Text.trimStart cs)
  return (Text.ofDigits ds, rest)

/-- A date `Y-M-D` off the front of a text; blanks may stand before each number. -/
def take (cs : List Char) : Option (CivilDate × List Char) := do
  let (year, cs) ← takeYear (Text.trimStart cs)
  let cs ← Text.expect '-' cs
  let (month, cs) ← takeField cs
  let cs ← Text.expect '-' cs
  let (day, cs) ← takeField cs
  let date ← make? year month day
  return (date, cs)

/-- Nanoseconds from the start of 1970 to the start of a day. -/
def ticks (d : CivilDate) : Int := d.dayNumber * Ticks.day

end CivilDate

namespace TimeOfDay

/-- The time of day, if there is one; second 60 is a leap second. -/
def make? (hour minute second nanosecond : Nat) : Option TimeOfDay :=
  if hour ≤ 23 ∧ minute ≤ 59 ∧ second ≤ 59 then some ⟨hour, minute, second, nanosecond⟩
  else if hour ≤ 23 ∧ minute ≤ 59 ∧ second = 60 then
    some ⟨hour, minute, 59, nanosecond + Ticks.second⟩
  else none

/-- Nanoseconds since midnight. -/
def ticks (t : TimeOfDay) : Nat :=
  t.hour * Ticks.hour + t.minute * Ticks.minute + t.second * Ticks.second + t.nanosecond

/-- A fraction of a second in nanoseconds: nothing, or a point and digits, of which the first nine
count. -/
def takeFraction : List Char → Option (Nat × List Char)
  | '.' :: cs => do
    let (ds, rest) ← Text.takeDigits 1 9 cs
    return (Text.ofDigits ds * 10 ^ (9 - ds.length), rest.dropWhile Char.isDigit)
  | cs => some (0, cs)

/-- A time `H:M:S` with an optional fraction off the front of a text; blanks may stand before each
number. -/
def take (cs : List Char) : Option (TimeOfDay × List Char) := do
  let (hour, cs) ← CivilDate.takeField cs
  let cs ← Text.expect ':' cs
  let (minute, cs) ← CivilDate.takeField cs
  let cs ← Text.expect ':' cs
  let (second, cs) ← CivilDate.takeField cs
  let (nanosecond, cs) ← takeFraction cs
  let time ← make? hour minute second nanosecond
  return (time, cs)

end TimeOfDay

namespace LocalTime

/-- Nanoseconds since the start of 1970. -/
def ticks (t : LocalTime) : Int := t.date.ticks + t.time.ticks

/-- The same as a 64-bit number, if it fits. -/
def ticks? (t : LocalTime) : Option Int64 := Ticks.ofInt? t.ticks

/-- The beginning of the day that a text names. -/
def midnight? (cs : List Char) : Option LocalTime := do
  let (date, rest) ← CivilDate.take cs
  if rest.isEmpty then return ⟨date, ⟨0, 0, 0, 0⟩⟩ else none

/-- The day and time of day that a text names, with something between them. -/
def joined? (between : List Char → Option (List Char)) (cs : List Char) : Option LocalTime := do
  let (date, cs) ← CivilDate.take cs
  let cs ← between cs
  let (time, rest) ← TimeOfDay.take cs
  if rest.isEmpty then return ⟨date, time⟩ else none

end LocalTime
end Columnar
