import Columnar.Calendar.LocalTime

/-!
# Instants with an offset

An instant is a local time and the minutes by which local clocks are ahead of
universal time.  Its text has fixed widths: `2024-02-29T12:30:00.5+01:00`.

## Main definitions

* `Instant.parse?` — reading the text of an instant.
* `Instant.ticks?` — its ticks in universal time.
* `Instant.render` — its canonical text, which keeps the offset.
-/

namespace Columnar

/-- A local time, and how many minutes it is ahead of universal time. -/
structure Instant where
  clock : LocalTime
  offset : Int
deriving DecidableEq, Repr

namespace Instant

/-- A number of exactly `width` digits. -/
def takeFixed (width : Nat) (cs : List Char) : Option (Nat × List Char) := do
  let (ds, rest) ← Text.takeDigits width width cs
  return (Text.ofDigits ds, rest)

/-- The letter or space between date and time. -/
def takeSeparator : List Char → Option (List Char)
  | 'T' :: cs | 't' :: cs | ' ' :: cs => some cs
  | _ => none

/-- Hours and minutes of an offset, less than a day. -/
def takeHoursMinutes (cs : List Char) : Option (Nat × List Char) := do
  let (hours, cs) ← takeFixed 2 cs
  let cs ← Text.expect ':' cs
  let (minutes, cs) ← takeFixed 2 cs
  if hours ≤ 23 ∧ minutes ≤ 59 then return (60 * hours + minutes, cs) else none

/-- An offset in minutes: a `Z`, or a sign with hours and minutes.  The sign may be the minus sign of
typography. -/
def takeOffset : List Char → Option (Int × List Char)
  | 'Z' :: cs | 'z' :: cs => some (0, cs)
  | '+' :: cs => (takeHoursMinutes cs).map fun (m, rest) => ((m : Int), rest)
  | '-' :: cs | '\u2212' :: cs => (takeHoursMinutes cs).map fun (m, rest) => (-(m : Int), rest)
  | _ => none

/-- The instant that a text names. -/
def parse? (cs : List Char) : Option Instant := do
  let (year, cs) ← takeFixed 4 cs
  let cs ← Text.expect '-' cs
  let (month, cs) ← takeFixed 2 cs
  let cs ← Text.expect '-' cs
  let (day, cs) ← takeFixed 2 cs
  let cs ← takeSeparator cs
  let (hour, cs) ← takeFixed 2 cs
  let cs ← Text.expect ':' cs
  let (minute, cs) ← takeFixed 2 cs
  let cs ← Text.expect ':' cs
  let (second, cs) ← takeFixed 2 cs
  let (nanosecond, cs) ← TimeOfDay.takeFraction cs
  let (offset, rest) ← takeOffset cs
  let date ← CivilDate.make? year month day
  let time ← TimeOfDay.make? hour minute second nanosecond
  if rest.isEmpty then return ⟨⟨date, time⟩, offset⟩ else none

/-- Ticks in universal time. -/
def ticks? (i : Instant) : Option Int64 := Ticks.ofInt? (i.clock.ticks - i.offset * Ticks.minute)

/-! ### Canonical text -/

/-- A number with zeros before it. -/
def padded (width n : Nat) : List Char :=
  let ds := Nat.toDigits 10 n
  List.replicate (width - ds.length) '0' ++ ds

/-- A fraction of a second in as few groups of three places as it needs. -/
def renderFraction (nanosecond : Nat) : List Char :=
  if nanosecond = 0 then []
  else if nanosecond % 1000000 = 0 then '.' :: padded 3 (nanosecond / 1000000)
  else if nanosecond % 1000 = 0 then '.' :: padded 6 (nanosecond / 1000)
  else '.' :: padded 9 nanosecond

/-- No offset is written `Z`. -/
def renderOffset (offset : Int) : List Char :=
  if offset = 0 then ['Z'] else
    (if offset < 0 then '-' else '+') ::
      (padded 2 (offset.natAbs / 60) ++ ':' :: padded 2 (offset.natAbs % 60))

/-- The canonical text.  A leap second is written as second 60. -/
def render (i : Instant) : String :=
  let d := i.clock.date
  let t := i.clock.time
  let second := t.second + t.nanosecond / Ticks.second
  String.ofList (padded 4 d.year.toNat ++ '-' :: padded 2 d.month ++ '-' :: padded 2 d.day ++
    'T' :: padded 2 t.hour ++ ':' :: padded 2 t.minute ++ ':' :: padded 2 second ++
    renderFraction (t.nanosecond % Ticks.second) ++ renderOffset i.offset)

end Instant
end Columnar
