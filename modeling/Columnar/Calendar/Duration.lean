import Columnar.Calendar.Ticks
import Columnar.Text.Blank
import Columnar.Text.Digits

/-!
# Durations

A duration is a sign and one or more components, each a decimal number with a
unit: `1h30m`, `-1.5s`, `250ms`.  A bare zero needs no unit.

## Main definitions

* `Duration.TimeUnit` — the units and their lengths.
* `Duration.amount?` — what a number of units comes to.
* `Duration.parse?` — the ticks of a text that is a duration.
-/

namespace Columnar
namespace Duration

/-- A unit of time. -/
inductive TimeUnit where
  | nanosecond
  | microsecond
  | millisecond
  | second
  | minute
  | hour
deriving DecidableEq, Repr

namespace TimeUnit

/-- The length of a unit in nanoseconds. -/
def ticks : TimeUnit → Nat
  | nanosecond => 1
  | microsecond => 1000
  | millisecond => 1000000
  | second => Ticks.second
  | minute => Ticks.minute
  | hour => Ticks.hour

/-- The unit with a name.  The micro sign and the Greek letter both do. -/
def ofName? : List Char → Option TimeUnit
  | ['n', 's'] => some nanosecond
  | ['u', 's'] | ['\u00b5', 's'] | ['\u03bc', 's'] => some microsecond
  | ['m', 's'] => some millisecond
  | ['s'] => some second
  | ['m'] => some minute
  | ['h'] => some hour
  | _ => none

end TimeUnit

/-- The character belongs to a number. -/
def isNumeral (c : Char) : Bool := c.isDigit || c == '.'

/-- How many digits of a fraction are looked at. -/
def fractionDigits : Nat := 18

/-- What a number of units comes to in nanoseconds, rounded down.  The number is split at its first
point; of its fraction only the first digits are looked at. -/
def amount? (number : List Char) (unit : TimeUnit) : Option Nat :=
  let whole := number.takeWhile (· != '.')
  let fraction := (number.dropWhile (· != '.')).drop 1
  let places := fraction.take fractionDigits
  if whole.isEmpty && fraction.isEmpty then none
  else if places.all Char.isDigit then
    some (Text.ofDigits whole * unit.ticks + Text.ofDigits places * unit.ticks / 10 ^ places.length)
  else none

/-- The sum of the components of a text. -/
def total? : List Char → Option Nat
  | [] => some 0
  | c :: cs =>
    if isNumeral c then do
      let number := c :: cs.takeWhile isNumeral
      let rest := cs.dropWhile isNumeral
      let unit ← TimeUnit.ofName? (rest.takeWhile (!isNumeral ·))
      let amount ← amount? number unit
      let others ← total? (rest.dropWhile (!isNumeral ·))
      return amount + others
    else none
termination_by cs => cs.length
decreasing_by
  have h := (List.dropWhile_sublist (l := cs) isNumeral).length_le
  have h' := (List.dropWhile_sublist (l := cs.dropWhile isNumeral) (!isNumeral ·)).length_le
  simp only [List.length_cons]
  omega

/-- The ticks of a text that is a duration. -/
def parse? (cs : List Char) : Option Int64 :=
  let (negative, body) := Text.takeSign (Text.trim cs)
  if body = ['0'] then some 0
  else if body.isEmpty then none
  else do
    let total ← total? body
    Ticks.ofInt? (if negative then -(total : Int) else total)

end Duration
end Columnar
