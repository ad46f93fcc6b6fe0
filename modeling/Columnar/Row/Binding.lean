import Columnar.Row

/-!
# Records as rows

A binding connects fields of a schema with parts of records of a type.  A record
fills a row through it, and a row is stored into a record.

## Main definitions

* `Binding.make` — a binding from field names and accessors.
* `Binding.fill` — a row from a record.
* `Binding.apply` — a record from a row; parts whose slot is unset stay.
-/

namespace Columnar

/-- How a part of a record is read as a value, and stored from one. -/
structure Accessor (α : Type) where
  get : α → Option Value
  set : α → Value → α

/-- An accessor, or none, for every field of a schema. -/
structure Binding (α : Type) where
  schema : Schema
  accessors : List (Option (Accessor α))

namespace Binding

variable {α : Type}

/-- The binding with accessors for some fields given by name; of two for one field the later one
stays. -/
def bindAll (b : Binding α) : List (String × Accessor α) → Except Failure (Binding α)
  | [] => .ok b
  | (name, a) :: more => do
    let i ← b.schema.findField name
    bindAll { b with accessors := b.accessors.set i (some a) } more

/-- A binding from field names and accessors. -/
def make (s : Schema) (fields : List (String × Accessor α)) : Except Failure (Binding α) :=
  bindAll ⟨s, List.replicate s.width none⟩ fields

/-- How many fields have an accessor. -/
def boundFields (b : Binding α) : Nat := b.accessors.countP Option.isSome

/-- Set the slots from `i` on from a record, up to the first value that is refused. -/
def fillFrom (record : α) (r : Row) (i : Nat) : List (Option (Accessor α)) → Except Failure Unit × Row
  | [] => (.ok (), r)
  | none :: more => fillFrom record r (i + 1) more
  | some a :: more =>
    match a.get record with
    | none => fillFrom record r (i + 1) more
    | some v =>
      match r.set i v with
      | .ok r => fillFrom record r (i + 1) more
      | .error e => (.error e, r)

/-- The row, reset, with the values of a record.  After a failure the slots before it are set. -/
def fill (b : Binding α) (record : α) (r : Row) : Except Failure Unit × Row :=
  fillFrom record r.reset 0 b.accessors

/-- Store the set slots from `i` on into a record. -/
def applyFrom (r : Row) (record : α) (i : Nat) : List (Option (Accessor α)) → α
  | [] => record
  | none :: more => applyFrom r record (i + 1) more
  | some a :: more =>
    match r.get? i with
    | none => applyFrom r record (i + 1) more
    | some v => applyFrom r (a.set record v) (i + 1) more

/-- The record with the set slots of a row. -/
def apply (b : Binding α) (r : Row) (record : α) : α := applyFrom r record 0 b.accessors

end Binding
end Columnar
