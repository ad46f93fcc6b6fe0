import Columnar.Column.PlacedCells
import Columnar.Page.Presence
import Columnar.Schema

/-!
# The sections of a page in a buffer

A feed keeps a table for each field of its schema and reads page after page into
the same tables.  Reading a section overwrites the table of its field: the place
of the presence bits, then the values.  A page that is refused midway leaves the
tables of some fields as they were and those of others with part of its own.

## Main definitions

* `PlacedSection` — the table of a field.
* `Sections.decode` — read the body of a page into the tables.
-/

namespace Columnar

/-- What was last read for a field: where its presence bits are, and its values. -/
structure PlacedSection where
  presence : Span
  cells : PlacedCells
deriving DecidableEq, Repr

namespace PlacedSection

/-- The table of a field for which nothing was read yet. -/
def vacant (storage : Storage) : PlacedSection := ⟨⟨0, 0⟩, .empty storage⟩

/-- Read the inside of a section into the table of its field. -/
def refill (t : PlacedSection) (index rows : Nat) (payload : Cursor) :
    Except Failure Unit × PlacedSection :=
  match Cursor.span (Presence.claimedLength rows) payload with
  | .error e _ => (.error e, t)
  | .ok presence payload =>
    match t.cells.refill payload with
    | (.error e, cells) => (.error e, ⟨presence, cells⟩)
    | (.ok payload, cells) =>
      (if cells.length ≠ rows then .error (.damaged (.valueCount index cells.length rows))
        else if !payload.isEmpty then .error (.damaged (.sectionRest payload.left index))
        else .ok (),
        ⟨presence, cells⟩)

end PlacedSection

namespace Sections

/-- The field of a section, how its values are stored, and its inside. -/
def takeFront (layout : List (Kind × Storage)) (seen : List Nat) :
    Cursor.Read (Nat × Storage × Cursor) := do
  let index ← Cursor.number
  match layout[index]? with
  | none => throw (.damaged (.unknownSection index))
  | some (kind, storage) =>
    if index ∈ seen then throw (.damaged (.repeatedSection index))
    let b ← Cursor.byte
    if Kind.ofByte? b ≠ some kind then throw (.damaged (.kindByte index b kind))
    let n ← Cursor.length
    let payload ← Cursor.sub n
    return (index, storage, payload)

/-- Read one section, for a field that was not seen yet. -/
def takeOne (layout : List (Kind × Storage)) (rows : Nat) (seen : List Nat)
    (tables : List PlacedSection) (c : Cursor) : Except Failure (Nat × Cursor) × List PlacedSection :=
  match takeFront layout seen c with
  | .error e _ => (.error e, tables)
  | .ok (index, storage, payload) c =>
    let filled := (tables.getD index (.vacant storage)).refill index rows payload
    (filled.1.map fun () => (index, c), tables.set index filled.2)

/-- Read some number of sections, for fields other than the ones seen. -/
def takeAll (layout : List (Kind × Storage)) (rows : Nat) :
    Nat → List Nat → List PlacedSection → Cursor → Except Failure Cursor × List PlacedSection
  | 0, _, tables, c => (.ok c, tables)
  | count + 1, seen, tables, c =>
    match takeOne layout rows seen tables c with
    | (.error e, tables) => (.error e, tables)
    | (.ok (index, c), tables) => takeAll layout rows count (index :: seen) tables c

/-- The number of rows of a page, and the number of its sections, which has to be that of the
fields. -/
def takeCounts (width : Nat) : Cursor.Read (Nat × Nat) := do
  let rows ← Cursor.number
  let count ← Cursor.number
  if count ≠ width then throw (.columnCountMismatch width count)
  return (rows, count)

/-- Read the body of a page into the tables: the number of its rows, or why it is refused. -/
def decode (layout : List (Kind × Storage)) (limit : Nat) (tables : List PlacedSection)
    (body : List UInt8) : Except Failure Nat × List PlacedSection :=
  match takeCounts layout.length (.ofBytes body) with
  | .error e _ => (.error e, tables)
  | .ok (rows, count) c =>
    match takeAll layout rows count [] tables c with
    | (.error e, tables) => (.error e, tables)
    | (.ok c, tables) =>
      (if !c.isEmpty then .error (.damaged .pageRest)
        else if count = 0 ∧ limit < rows then .error (.damaged (.tooManyRows rows limit))
        else .ok rows,
        tables)

end Sections
end Columnar
