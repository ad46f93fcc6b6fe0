import Columnar.Calendar
import Columnar.Calendar.Duration
import Columnar.Literal.HexBytes
import Columnar.Literal.Numeral
import Columnar.Value

/-!
# Literals

The text of a default value has a meaning only under the kind of its field.
Blanks around a text never count.  Texts, bytes and times may stand between
quotation marks.  Dates and times are those of some calendar.

## Main definitions

* `Literal.parse?` — the value of a literal under a kind.

## Main results

* `Literal.storage_of_parse?` — the value has the storage of the kind.
-/

namespace Columnar
namespace Literal

/-- The text between a quotation mark at its start and one at its end; a text that lacks either is
left alone. -/
def unquote (cs : List Char) : List Char :=
  match cs with
  | '"' :: rest => if rest.getLast? = some '"' then rest.dropLast else cs
  | _ => cs

/-- The value of a text of digits, if it is below `2 ^ 64`. -/
def uint? (cs : List Char) : Option UInt64 :=
  (Text.unsigned? cs).bind fun n => if n < 2 ^ 64 then some (UInt64.ofNat n) else none

def int? (cs : List Char) : Option Int64 := (Text.signed? cs).bind Ticks.ofInt?

def bool? (cs : List Char) : Option Bool :=
  if cs = "true".toList then some true
  else if cs = "false".toList then some false
  else none

variable [Calendar]

/-- The value of a literal under a kind; a reference has none. -/
def parse? (kind : Kind) (text : String) : Option Value :=
  let cs := Text.trim text.toList
  let inner := unquote cs
  match kind with
  | .uint64 => (uint? cs).map .uint
  | .int64 => (int? cs).map .int
  | .float64 => (Numeral.float? cs).map .float
  | .bool => (bool? cs).map .bool
  | .string => some (.text (String.ofList inner))
  | .bytes => (HexBytes.parse? inner).map .bytes
  | .date => (Calendar.date? inner).map .int
  | .datetime => (Calendar.datetime? inner).map .int
  | .timestamp => (Calendar.timestamp? inner).map .int
  | .timestamptz => (Calendar.timestamptz? inner).map .text
  | .duration => (Duration.parse? inner).map .int
  | .ref => none

theorem storage_of_parse? {kind : Kind} {text : String} {v : Value}
    (h : parse? kind text = some v) : kind.storage? = some v.storage := by
  cases kind <;> simp only [parse?, Option.map_eq_some_iff, Option.some.injEq, reduceCtorEq] at h <;>
    (obtain ⟨_, -, rfl⟩ := h; rfl)

end Literal
end Columnar
