import Columnar.Calendar.Instant

/-!
# Calendars

What a date or a time comes to is up to a calendar, which reads the texts of either.
Here it is said which texts are offered to it, and what is kept: of a day its
beginning, of a local time the nanoseconds since the start of 1970, and of an instant
either these in universal time or its text in canonical form.

## Main definitions

* `Calendar` — what is asked of a calendar.
* `Calendar.date?`, `Calendar.datetime?`, `Calendar.timestamp?`, `Calendar.timestamptz?` —
  what is kept of a text.
* `Builtin.calendar` — a calendar to run with.
-/

namespace Columnar

/-- What is read from the texts of dates and times. -/
class Calendar where
  /-- Days with times of day. -/
  Local : Type
  /-- The same with an offset from universal time. -/
  Zoned : Type
  /-- The beginning of the day that a text names. -/
  midnight? : List Char → Option Local
  /-- A day and a time of day with a letter `T` between them. -/
  lettered? : List Char → Option Local
  /-- A day and a time of day with blanks between them. -/
  spaced? : List Char → Option Local
  /-- Nanoseconds since the start of 1970, if 64 bits can count them. -/
  localTicks? : Local → Option Int64
  zoned? : List Char → Option Zoned
  /-- Nanoseconds since the start of 1970 in universal time, if 64 bits can count them. -/
  zonedTicks? : Zoned → Option Int64
  /-- The canonical text, which keeps the offset. -/
  render : Zoned → String

namespace Calendar

variable [Calendar]

def date? (cs : List Char) : Option Int64 := (midnight? (Text.trim cs)).bind localTicks?

def datetime? (cs : List Char) : Option Int64 :=
  ((lettered? (Text.trim cs)).or (spaced? (Text.trim cs))).bind localTicks?

def timestamp? (cs : List Char) : Option Int64 := (zoned? (Text.trim cs)).bind zonedTicks?

def timestamptz? (cs : List Char) : Option String := (zoned? (Text.trim cs)).map render

end Calendar

namespace Builtin

/-- The Gregorian calendar. -/
scoped instance calendar : Calendar where
  Local := LocalTime
  Zoned := Instant
  midnight? := LocalTime.midnight?
  lettered? := LocalTime.joined? (Text.expect 'T')
  spaced? := LocalTime.joined? some
  localTicks? := LocalTime.ticks?
  zoned? := Instant.parse?
  zonedTicks? := Instant.ticks?
  render := Instant.render

end Builtin
end Columnar
