import Columnar.Page.Sections
import Columnar.Row

/-!
# Rows of a page in a buffer

A view is one row of the page that a feed has loaded.  Its cells are fetched out
of the page's buffer when they are asked for.

## Main definitions

* `View.get` — a cell: the stored value if it was set, else the field's default.
* `View.toRow` — the row by itself.
-/

namespace Columnar

/-- A row of a page, under the schema it is read with. -/
structure View where
  schema : Schema
  /-- The body of the page. -/
  buffer : List UInt8
  /-- A table for each field. -/
  tables : List PlacedSection
  row : Nat
deriving Repr

namespace View

def width (v : View) : Nat := v.tables.length

/-- The cell was set when it was written. -/
def isSet (v : View) (field : Nat) : Bool :=
  match v.tables[field]? with
  | some t => Presence.isSet (t.presence.slice v.buffer) v.row
  | none => false

/-- A cell: the stored value if it was set, else the field's default. -/
def get (v : View) (field : Nat) : Except Failure (Option Value) :=
  match v.tables[field]? with
  | none => .error (.outOfRange .field field v.width)
  | some t =>
    if v.isSet field then (t.cells.get v.buffer v.row).map some
    else .ok (v.schema.fields[field]?.bind Field.default?)

def getByName (v : View) (name : String) : Except Failure (Option Value) := do
  let i ← v.schema.findField name
  v.get i

/-- The row by itself. -/
def toRow (v : View) : Except Failure Row :=
  match (Row.blank v.schema).refill v.get with
  | (.ok (), r) => .ok r
  | (.error e, _) => .error e

end View
end Columnar
