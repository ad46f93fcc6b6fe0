import Columnar.Column
import Columnar.Page.Presence
import Columnar.Row

/-!
# Drafts of pages

A draft gathers rows for one page.  A row comes as a whole, or cell by cell: a
value and a presence bit for every field, in any order, and then the row is
sealed.  Until then it is open and can be abandoned.

## Main definitions

* `Draft.make` — an empty draft for a resolved schema.
* `Draft.appendValue`, `Draft.recordPresence`, `Draft.sealRow`, `Draft.abortRow` — a
  row cell by cell.
* `Draft.appendRow` — a row as a whole.
* `Draft.encode` — the body of the page.
-/

namespace Columnar

/-- What a draft gathers for one field. -/
structure Lane where
  field : Field
  kind : Kind
  column : Column
  presence : Presence

namespace Lane

/-- The first `n` rows. -/
def truncate (n : Nat) (l : Lane) : Lane :=
  { l with column := l.column.truncate n, presence := l.presence.truncate n }

def reset (l : Lane) : Lane := { l with column := l.column.reset, presence := .empty }

/-- Value and presence have been given for exactly `n` rows. -/
def holds (n : Nat) (l : Lane) : Bool := l.column.length == n && l.presence.length == n

/-- What is stored for a row without a value. -/
def filler (l : Lane) : Value := l.field.default?.getD (Value.zero l.column.storage)

/-- The section of a page for the field at a position. -/
def encodeAt (index : Nat) (l : Lane) : List UInt8 :=
  let payload := l.presence.toBytes ++ l.column.encode
  Leb128.encode index ++ l.kind.byte :: Leb128.encode payload.length ++ payload

end Lane

structure Draft where
  schema : Schema
  /-- The number of rows at which the draft is full. -/
  limit : Nat
  /-- The number of sealed rows. -/
  rows : Nat
  lanes : List Lane

namespace Draft

/-- Empty lanes for the fields of a schema. -/
def emptyLanes (s : Schema) (layout : List (Kind × Storage)) : List Lane :=
  List.zipWith (fun f (kind, storage) => ⟨f, kind, Column.empty storage, .empty⟩) s.fields layout

/-- An empty draft. -/
def make (s : Schema) (limit : Nat) : Except Failure Draft :=
  if limit = 0 then .error (.badLimit .draftRows) else do
    let layout ← s.layout
    return ⟨s, limit, 0, emptyLanes s layout⟩

def isFull (d : Draft) : Bool := d.limit ≤ d.rows

def isEmpty (d : Draft) : Bool := d.rows == 0

/-- The lane of a field that has to be there. -/
def lane (d : Draft) (field : Nat) : Except Failure Lane :=
  match d.lanes[field]? with
  | some l => .ok l
  | none => .error (.outOfRange .field field d.lanes.length)

def setLane (d : Draft) (field : Nat) (l : Lane) : Draft := { d with lanes := d.lanes.set field l }

variable [TextHash]

/-- The open row's value of a field. -/
def appendValue (d : Draft) (field : Nat) (v : Value) : Except Failure Draft :=
  if d.isFull then .error .pageFull else do
    let l ← d.lane field
    if l.column.length ≠ d.rows then throw (.misuse (.valueRepeated field))
    match l.column.append TextHash.digest v with
    | .ok column => return d.setLane field { l with column }
    | .error .storage => throw (.kindMismatch l.field.name l.kind v.storage)
    | .error (.overflow store) => throw (.overflow store)

/-- The open row's presence bit of a field. -/
def recordPresence (d : Draft) (field : Nat) (present : Bool) : Except Failure Draft := do
  let l ← d.lane field
  if l.presence.length ≠ d.rows then throw (.misuse (.presenceRepeated field))
  return d.setLane field { l with presence := l.presence.push present }

/-- Close the open row, all of whose cells have to be there. -/
def sealRow (d : Draft) : Except Failure Draft :=
  if d.isFull then .error .pageFull else
    match d.lanes.find? fun l => !l.holds (d.rows + 1) with
    | some l => .error (.misuse (.fieldMissing l.field.name))
    | none => .ok { d with rows := d.rows + 1 }

/-- Abandon the open row. -/
def abortRow (d : Draft) : Draft := { d with lanes := d.lanes.map (·.truncate d.rows) }

/-- The cell of a slot: its value, or what is stored in its place.  A value stays when its presence bit
is refused. -/
def appendCell (d : Draft) (field : Nat) (slot : Option Value) : Except Failure Unit × Draft :=
  match d.lane field with
  | .error e => (.error e, d)
  | .ok l =>
    match d.appendValue field (slot.getD l.filler) with
    | .error e => (.error e, d)
    | .ok d =>
      match d.recordPresence field slot.isSome with
      | .error e => (.error e, d)
      | .ok d => (.ok (), d)

/-- The cells of the slots from a field on, and the row closed.  After a failure the cells before it
are there. -/
def appendSlots (d : Draft) (field : Nat) : List (Option Value) → Except Failure Unit × Draft
  | [] =>
    match d.sealRow with
    | .error e => (.error e, d)
    | .ok d => (.ok (), d)
  | slot :: slots =>
    match d.appendCell field slot with
    | (.error e, d) => (.error e, d)
    | (.ok (), d) => appendSlots d (field + 1) slots

/-- A row as a whole.  If one of its cells is refused, the row is abandoned. -/
def appendRow (d : Draft) (r : Row) : Except Failure Unit × Draft :=
  if r.width ≠ d.lanes.length then (.error (.columnCountMismatch d.lanes.length r.width), d)
  else if d.isFull then (.error .pageFull, d)
  else match d.appendSlots 0 r.slots with
    | (.ok (), d) => (.ok (), d)
    | (.error e, d) => (.error e, d.abortRow)

/-- The sections of the lanes from a field on. -/
def sectionsFrom (field : Nat) : List Lane → List UInt8
  | [] => []
  | l :: ls => l.encodeAt field ++ sectionsFrom (field + 1) ls

/-- The body of the page; a draft without rows has none. -/
def encode (d : Draft) : Except Failure (List UInt8) :=
  if !d.lanes.all (·.holds d.rows) then .error (.misuse .rowOpen)
  else if d.isEmpty then .ok []
  else .ok (Leb128.encode d.rows ++ Leb128.encode d.lanes.length ++ sectionsFrom 0 d.lanes)

/-- The draft without any rows. -/
def reset (d : Draft) : Draft := { d with rows := 0, lanes := d.lanes.map Lane.reset }

end Draft
end Columnar
