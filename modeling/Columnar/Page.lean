import Columnar.Column.Cells
import Columnar.Page.Presence
import Columnar.Schema

/-!
# Pages

The body of a page gives the number of its rows and one section per field: the
field's position and kind, and behind a length the presence bits and the values.
Sections may come in any order.

A `Page` is what a body says, with no buffer behind it; what a feed holds after
loading the body is compared with it.

## Main definitions

* `Page.decode` — the page of a body, for fields of given kinds.
* `Page.cell` — a cell: the stored value if it was set, else the field's default.
-/

namespace Columnar

/-- What a page holds for one field. -/
structure Section where
  presence : List UInt8
  cells : Cells
deriving DecidableEq, Repr

/-- A page: the number of its rows, and the sections by the position of their field. -/
structure Page where
  rows : Nat
  sections : List (Nat × Section)
deriving DecidableEq, Repr

namespace Page

/-- A page without rows. -/
def empty : Page := ⟨0, []⟩

/-- The inside of a section. -/
def decodePayload (index rows : Nat) (storage : Storage) (payload : List UInt8) :
    Except Failure Section := do
  let (presence, rest) ← Take.bytes (Presence.claimedLength rows) payload
  let (cells, rest) ← Cells.decode storage rest
  if cells.length ≠ rows then throw (.damaged (.valueCount index cells.length rows))
  if !rest.isEmpty then throw (.damaged (.sectionRest rest.length index))
  return ⟨presence, cells⟩

/-- The field of a section, how its values are stored, and its inside.  The field must not be one of
those seen. -/
def takeFront (layout : List (Kind × Storage)) (seen : List Nat) (bs : List UInt8) :
    Except Failure ((Nat × Storage × List UInt8) × List UInt8) := do
  let (index, rest) ← Take.number bs
  match layout[index]? with
  | none => throw (.damaged (.unknownSection index))
  | some (kind, storage) =>
    if index ∈ seen then throw (.damaged (.repeatedSection index))
    let (b, rest) ← Take.byte rest
    if Kind.ofByte? b ≠ some kind then throw (.damaged (.kindByte index b kind))
    let (payload, rest) ← Take.prefixed rest
    return ((index, storage, payload), rest)

/-- A section for a field that has none yet. -/
def takeSection (layout : List (Kind × Storage)) (rows : Nat) (seen : List Nat) (bs : List UInt8) :
    Except Failure ((Nat × Section) × List UInt8) := do
  let ((index, storage, payload), rest) ← takeFront layout seen bs
  let s ← decodePayload index rows storage payload
  return ((index, s), rest)

/-- Some number of sections, for fields other than the ones seen. -/
def takeSections (layout : List (Kind × Storage)) (rows : Nat) :
    Nat → List Nat → List UInt8 → Except Failure (List (Nat × Section) × List UInt8)
  | 0, _, bs => .ok ([], bs)
  | count + 1, seen, bs => do
    let (s, rest) ← takeSection layout rows seen bs
    let (more, rest) ← takeSections layout rows count (s.1 :: seen) rest
    return (s :: more, rest)

/-- The number of rows of a page, and the number of its sections, which has to be that of the
fields. -/
def takeCounts (width : Nat) (bs : List UInt8) : Except Failure ((Nat × Nat) × List UInt8) := do
  let (rows, rest) ← Take.number bs
  let (count, rest) ← Take.number rest
  if count ≠ width then throw (.columnCountMismatch width count)
  return ((rows, count), rest)

/-- The page of a body.  A page without sections could claim any number of rows, so there the limit
on its length bounds them. -/
def decode (layout : List (Kind × Storage)) (limit : Nat) (body : List UInt8) :
    Except Failure Page := do
  let ((rows, count), rest) ← takeCounts layout.length body
  let (sections, rest) ← takeSections layout rows count [] rest
  if !rest.isEmpty then throw (.damaged .pageRest)
  if count = 0 ∧ limit < rows then throw (.damaged (.tooManyRows rows limit))
  return ⟨rows, sections⟩

/-- What the page holds for a field. -/
def section? (p : Page) (field : Nat) : Option Section := p.sections.lookup field

/-- The cell of a row and field was set when it was written. -/
def isSet (p : Page) (row field : Nat) : Bool :=
  match p.section? field with
  | some s => Presence.isSet s.presence row
  | none => false

/-- A cell, under the schema it is read with: the stored value if it was set, else the field's
default. -/
def cell (p : Page) (s : Schema) (row field : Nat) : Except Failure (Option Value) :=
  match s.fields[field]?, p.section? field with
  | some f, some t =>
    if Presence.isSet t.presence row then (t.cells.get row).map some else .ok f.default?
  | _, _ => .error (.outOfRange .field field s.width)

end Page
end Columnar
