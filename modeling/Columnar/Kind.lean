/-!
# Kinds of fields and their storage

A field is declared with one of twelve kinds.  Values are stored in one of six
ways, and several kinds share a way: dates, instants and durations are counts of
nanoseconds, an instant with its offset is a text.  A reference has no storage
of its own; it takes that of the field it leads to.

## Main definitions

* `Kind`, `Kind.name`, `Kind.byte` — the kinds, their names and their codes.
* `Storage` — the six ways of storing a value.
* `Kind.storage?` — how values of a kind are stored.

## Main results

* `Kind.ofByte?_byte`, `Kind.ofName?_name` — codes and names are read back.
-/

namespace Columnar

/-- How a value is stored. -/
inductive Storage where
  | uint
  | int
  | float
  | bool
  | text
  | bytes
deriving DecidableEq, Repr, Inhabited

namespace Storage

/-- The name of a storage in messages. -/
def name : Storage → String
  | uint => "uint"
  | int => "int"
  | float => "float"
  | bool => "bool"
  | text => "str"
  | bytes => "bytes"

def all : List Storage := [uint, int, float, bool, text, bytes]

end Storage

/-- What a field is declared to hold. -/
inductive Kind where
  | uint64
  | string
  | ref
  | bool
  | int64
  | float64
  | bytes
  | date
  | datetime
  | timestamp
  | timestamptz
  | duration
deriving DecidableEq, Repr, Inhabited

namespace Kind

/-- All kinds, in the order of their codes. -/
def all : List Kind :=
  [uint64, string, ref, bool, int64, float64, bytes, date, datetime, timestamp, timestamptz, duration]

/-- The code of a kind in pages and fingerprints: its place in `all`. -/
def byte : Kind → UInt8
  | uint64 => 0
  | string => 1
  | ref => 2
  | bool => 3
  | int64 => 4
  | float64 => 5
  | bytes => 6
  | date => 7
  | datetime => 8
  | timestamp => 9
  | timestamptz => 10
  | duration => 11

/-- The kind with a code. -/
def ofByte? (b : UInt8) : Option Kind := all[b.toNat]?

/-- The name of a kind. -/
def name : Kind → String
  | uint64 => "uint64"
  | string => "string"
  | ref => "ref"
  | bool => "bool"
  | int64 => "int64"
  | float64 => "float64"
  | bytes => "bytes"
  | date => "date"
  | datetime => "datetime"
  | timestamp => "timestamp"
  | timestamptz => "timestamptz"
  | duration => "duration"

/-- The kind with a name; ASCII letters of either case will do. -/
def ofName? (s : String) : Option Kind :=
  all.find? fun k => k.name.toList == s.toList.map Char.toLower

/-- How values of a kind are stored; references are not. -/
def storage? : Kind → Option Storage
  | uint64 => some .uint
  | string | timestamptz => some .text
  | ref => none
  | bool => some .bool
  | int64 | date | datetime | timestamp | duration => some .int
  | float64 => some .float
  | bytes => some .bytes

/-- The kind is about time. -/
def isTemporal : Kind → Bool
  | date | datetime | timestamp | timestamptz | duration => true
  | _ => false

@[simp] theorem ofByte?_byte (k : Kind) : ofByte? k.byte = some k := by cases k <;> rfl

theorem byte_injective {j k : Kind} (h : j.byte = k.byte) : j = k := by
  have hj := ofByte?_byte j
  rw [h, ofByte?_byte k] at hj
  exact (Option.some.inj hj).symm

@[simp] theorem ofName?_name (k : Kind) : ofName? k.name = some k := by cases k <;> decide

theorem storage?_eq_none_iff {k : Kind} : k.storage? = none ↔ k = ref := by cases k <;> simp [storage?]

end Kind
end Columnar
