import Columnar.Column.Blobs
import Columnar.Column.Dictionary
import Columnar.Column.Numbers
import Columnar.Value

/-!
# Columns

A column gathers the values of one field of a page, all of one storage, and
encodes them together.

## Main definitions

* `Column` — the values gathered so far.
* `Refusal` — why a value is not taken.
* `Column.append`, `Column.truncate` — growing and cutting a column.
* `Column.encode` — the bytes of a column.
* `Column.toList` — the values of a column, in order.

## Main results

* `Column.append_eq_storage_iff` — a column refuses values of other storages as such, and no others.
-/

namespace Columnar

/-- Why a column does not take a value. -/
inductive Refusal where
  /-- The value is of another storage than those of the column. -/
  | storage
  /-- There is no room for it. -/
  | overflow (store : Overflow)
deriving DecidableEq, Repr

/-- The values of one field of a page. -/
inductive Column where
  | uints (vs : Array UInt64)
  | ints (vs : Array Int64)
  | floats (vs : Array Binary64)
  | bools (vs : Array Bool)
  | texts (d : Dictionary)
  | blobs (a : Arena)

namespace Column

/-- No values yet. -/
def empty : Storage → Column
  | .uint => uints #[]
  | .int => ints #[]
  | .float => floats #[]
  | .bool => bools #[]
  | .text => texts .empty
  | .bytes => blobs .empty

def storage : Column → Storage
  | uints _ => .uint
  | ints _ => .int
  | floats _ => .float
  | bools _ => .bool
  | texts _ => .text
  | blobs _ => .bytes

def length : Column → Nat
  | uints vs => vs.size
  | ints vs => vs.size
  | floats vs => vs.size
  | bools vs => vs.size
  | texts d => d.length
  | blobs a => a.size

/-- The values in order. -/
def toList : Column → List Value
  | uints vs => vs.toList.map .uint
  | ints vs => vs.toList.map .int
  | floats vs => vs.toList.map .float
  | bools vs => vs.toList.map .bool
  | texts d => d.rows.map .text
  | blobs a => a.toList.map .bytes

/-- One more value, if it is of the column's storage and there is room for it. -/
def append (hash : String → UInt64) : Column → Value → Except Refusal Column
  | uints vs, .uint v => .ok (uints (vs.push v))
  | ints vs, .int v => .ok (ints (vs.push v))
  | floats vs, .float v => .ok (floats (vs.push v))
  | bools vs, .bool v => .ok (bools (vs.push v))
  | texts d, .text v =>
    match d.append hash v with
    | .ok d => .ok (texts d)
    | .error store => .error (.overflow store)
  | blobs a, .bytes v =>
    if a.hasRoom v.length then .ok (blobs (a.push v)) else .error (.overflow .blobs)
  | _, _ => .error .storage

/-- Only the first `n` values. -/
def truncate (n : Nat) : Column → Column
  | uints vs => uints (vs.take n)
  | ints vs => ints (vs.take n)
  | floats vs => floats (vs.take n)
  | bools vs => bools (vs.take n)
  | texts d => texts (d.truncate n)
  | blobs a => blobs (a.truncate n)

/-- The column without its values. -/
def reset (c : Column) : Column := empty c.storage

/-- The bytes of the values. -/
def encode : Column → List UInt8
  | uints vs => UintColumn.encode vs.toList
  | ints vs => IntColumn.encode vs.toList
  | floats vs => FloatColumn.encode vs.toList
  | bools vs => BoolColumn.encode vs.toList
  | texts d => d.encode
  | blobs a => BlobColumn.encode a.toList

@[simp] theorem storage_empty (s : Storage) : (empty s).storage = s := by cases s <;> rfl

@[simp] theorem length_toList (c : Column) : c.toList.length = c.length := by
  cases c <;> simp [toList, length, Dictionary.rows, Dictionary.length]

theorem storage_append {hash : String → UInt64} {c c' : Column} {v : Value}
    (h : c.append hash v = .ok c') : v.storage = c.storage ∧ c'.storage = c.storage := by
  unfold append at h
  split at h
  case h_5 => split at h <;> cases h; exact ⟨rfl, rfl⟩
  case h_6 => split at h <;> cases h; exact ⟨rfl, rfl⟩
  all_goals cases h <;> exact ⟨rfl, rfl⟩

theorem append_eq_storage_iff {hash : String → UInt64} {c : Column} {v : Value} :
    c.append hash v = .error .storage ↔ v.storage ≠ c.storage := by
  unfold append
  split
  case h_5 => split <;> simp [storage, Value.storage]
  case h_6 => split <;> simp [storage, Value.storage]
  case h_7 => cases c <;> cases v <;> simp_all [storage, Value.storage]
  all_goals simp [storage, Value.storage]

@[simp] theorem length_empty (s : Storage) : (empty s).length = 0 := by cases s <;> rfl

end Column
end Columnar
