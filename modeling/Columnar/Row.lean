import Columnar.Schema
import Columnar.Value

/-!
# Rows

A row has a slot for every field of its schema; a slot holds a value or is unset.

## Main definitions

* `Row.blank` — a row with all slots unset.
* `Row.set`, `Row.setByName` — a slot takes only values of its field's storage.
* `Row.refill` — all slots anew, from a source that may fail midway.
* `Row.reuse` — a row kept from earlier, where it fits.
-/

namespace Columnar

structure Row where
  schema : Schema
  slots : List (Option Value)
  /-- There is a slot for every field. -/
  slots_length : slots.length = schema.width

namespace Row

/-- All slots are unset. -/
def blank (s : Schema) : Row := ⟨s, List.replicate s.width none, List.length_replicate⟩

/-- A row kept from earlier, if it is of a schema; else a blank one. -/
def reuse (kept : Option Row) (s : Schema) : Row :=
  match kept with
  | some r => if r.schema = s then r else blank s
  | none => blank s

/-- How many slots there are. -/
def width (r : Row) : Nat := r.slots.length

/-- The value of a slot that is there and set. -/
def get? (r : Row) (i : Nat) : Option Value := r.slots[i]?.join

def getByName? (r : Row) (name : String) : Option Value := (r.schema.fieldIndex? name).bind r.get?

def isSet (r : Row) (i : Nat) : Bool := (r.get? i).isSome

/-- The row with a slot changed. -/
def put (r : Row) (i : Nat) (cell : Option Value) : Row :=
  ⟨r.schema, r.slots.set i cell, by rw [List.length_set, r.slots_length]⟩

/-- The row with a slot set to a value of its field's storage. -/
def set (r : Row) (i : Nat) (v : Value) : Except Failure Row :=
  match r.schema.fields[i]? with
  | none => .error (.outOfRange .field i r.width)
  | some f =>
    match f.storage? with
    | none => .error (.unresolvedSchema r.schema.name)
    | some expected =>
      if v.storage = expected then .ok (r.put i (some v))
      else .error (.storageMismatch f.name expected v.storage)

def setByName (r : Row) (name : String) (v : Value) : Except Failure Row := do
  let i ← r.schema.findField name
  r.set i v

/-- The row with a slot unset; a slot that is not there makes no difference. -/
def unset (r : Row) (i : Nat) : Row := r.put i none

/-- The row with all slots unset. -/
def reset (r : Row) : Row := blank r.schema

/-- The row with the given values set in the slots from `i` on, unless one is refused. -/
def setFrom (r : Row) (i : Nat) : List (Option Value) → Except Failure Row
  | [] => .ok r
  | none :: cells => setFrom r (i + 1) cells
  | some v :: cells => do
    let r ← r.set i v
    setFrom r (i + 1) cells

/-- A new row of the given cells; missing ones are unset. -/
def ofCells (s : Schema) (cells : List (Option Value)) : Except Failure Row :=
  (blank s).setFrom 0 cells

/-! ### Filling all slots -/

/-- New contents for the slots from `i` on, up to the first that cannot be had. -/
def refillSlots (cell : Nat → Except Failure (Option Value)) (i : Nat) :
    List (Option Value) → Option Failure × List (Option Value)
  | [] => (none, [])
  | old :: olds =>
    match cell i with
    | .error e => (some e, old :: olds)
    | .ok new =>
      let (e, news) := refillSlots cell (i + 1) olds
      (e, new :: news)

@[simp] theorem length_refillSlots (cell : Nat → Except Failure (Option Value)) (i : Nat)
    (olds : List (Option Value)) : (refillSlots cell i olds).2.length = olds.length := by
  induction olds generalizing i with
  | nil => rfl
  | cons old olds ih =>
    unfold refillSlots
    split
    · rfl
    · simp [ih]

/-- New contents for all slots.  After a failure the slots before it have changed. -/
def refill (r : Row) (cell : Nat → Except Failure (Option Value)) : Except Failure Unit × Row :=
  let filled := refillSlots cell 0 r.slots
  (match filled.1 with
    | none => .ok ()
    | some e => .error e,
    ⟨r.schema, filled.2, by rw [length_refillSlots, r.slots_length]⟩)

end Row
end Columnar
