import Columnar.Bytes.Cursor
import Columnar.Column.Cells

/-!
# Decoded columns in a page's buffer

A feed reads a page without copying texts and byte strings out of it: of each it
keeps the place in the buffer.  The entry of a text is looked up, and its bytes
are fetched, when the text is asked for.

The values of a page are read into the place of those of the page before.  These go
first; when the reading breaks off, the values before the break are there.

## Main definitions

* `PlacedCells` — the values of one field; texts and byte strings are places.
* `PlacedCells.refill` — read the values at the front of a window.
* `PlacedCells.get` — the value of a row, out of the buffer.
-/

namespace Columnar

namespace UintColumn

/-- The next number. -/
def readOne : Cursor.Read UInt64 := do
  let n ← Cursor.number
  return UInt64.ofNat n

/-- The next number, by its step from the last one. -/
def readNext (got : Array UInt64) : Cursor.Read UInt64 := do
  let step ← Cursor.number
  let sum := (got.back?.getD 0).toNat + step
  if sum < 2 ^ 64 then return UInt64.ofNat sum else throw (.damaged .deltaTooLarge)

/-- Read numbers behind those that are there. -/
def readInto : Array UInt64 → Cursor → Except Failure Cursor × Array UInt64 :=
  Cursor.gatherBehind Cursor.flagged Prod.fst fun (_, stepwise) got =>
    if stepwise then readNext got else readOne

end UintColumn

namespace IntColumn

/-- The next number, by its step from the last one. -/
def readNext (got : Array Int64) : Cursor.Read Int64 := do
  let step ← Cursor.signed
  return got.back?.getD 0 + step

/-- Read numbers behind those that are there. -/
def readInto : Array Int64 → Cursor → Except Failure Cursor × Array Int64 :=
  Cursor.gatherBehind Cursor.flagged Prod.fst fun (_, stepwise) got =>
    if stepwise then readNext got else Cursor.signed

end IntColumn

namespace FloatColumn

def readOne : Cursor.Read Binary64 := do
  let w ← Cursor.word
  return ⟨w⟩

end FloatColumn

namespace BoolColumn

def readOne : Cursor.Read Bool := do
  let b ← Cursor.byte
  if b = 0 then return false
  if b = 1 then return true
  throw (.damaged (.boolByte b))

end BoolColumn

namespace Dictionary

/-- The place of an entry, whose bytes have to be a text. -/
def readEntry : Cursor.Read Span := do
  let place ← Cursor.prefixed
  let bs ← Cursor.bytesAt place
  match Utf8.decode? bs with
  | some _ => return place
  | none => throw (.damaged .dictionaryText)

/-- The place of an entry in a dictionary of some size. -/
def readIndex (size : Nat) : Cursor.Read Nat := do
  let i ← Cursor.number
  if i < size then return i else throw (.outOfRange .dictionary i size)

/-- Read the places of entries, and which entry is each row's, behind those that are there. -/
def readInto (entries : Array Span) (indices : Array Nat) (c : Cursor) :
    Except Failure Cursor × Array Span × Array Nat :=
  match Cursor.gatherBehind (Cursor.count 1) id (fun _ _ => readEntry) entries c with
  | (.error e, entries) => (.error e, entries, indices)
  | (.ok c, entries) =>
    (Cursor.gatherBehind (Cursor.count 1) id (fun _ _ => readIndex entries.size) indices c).map
      id fun indices => (entries, indices)

end Dictionary

/-- The values of one field of a page in a buffer. -/
inductive PlacedCells where
  | uints (vs : Array UInt64)
  | ints (vs : Array Int64)
  | floats (vs : Array Binary64)
  | bools (vs : Array Bool)
  | texts (entries : Array Span) (indices : Array Nat)
  | blobs (places : Array Span)
deriving DecidableEq, Repr

namespace PlacedCells

/-- No values yet. -/
def empty : Storage → PlacedCells
  | .uint => uints #[]
  | .int => ints #[]
  | .float => floats #[]
  | .bool => bools #[]
  | .text => texts #[] #[]
  | .bytes => blobs #[]

def length : PlacedCells → Nat
  | uints vs => vs.size
  | ints vs => vs.size
  | floats vs => vs.size
  | bools vs => vs.size
  | texts _ indices => indices.size
  | blobs places => places.size

def storage : PlacedCells → Storage
  | uints _ => .uint
  | ints _ => .int
  | floats _ => .float
  | bools _ => .bool
  | texts _ _ => .text
  | blobs _ => .bytes

/-- Read values at the front of a window behind those that are there. -/
def readInto (c : Cursor) : PlacedCells → Except Failure Cursor × PlacedCells
  | uints vs => (UintColumn.readInto vs c).map id uints
  | ints vs => (IntColumn.readInto vs c).map id ints
  | floats vs =>
    (Cursor.gatherBehind (Cursor.count 8) id (fun _ _ => FloatColumn.readOne) vs c).map id floats
  | bools vs =>
    (Cursor.gatherBehind (Cursor.count 1) id (fun _ _ => BoolColumn.readOne) vs c).map id bools
  | texts entries indices =>
    (Dictionary.readInto entries indices c).map id fun (entries, indices) => texts entries indices
  | blobs places =>
    (Cursor.gatherBehind (Cursor.count 1) id (fun _ _ => Cursor.prefixed) places c).map id blobs

/-- Read the values at the front of a window into the place of others of their storage. -/
def refill (old : PlacedCells) (c : Cursor) : Except Failure Cursor × PlacedCells :=
  (empty old.storage).readInto c

/-- A member of a table that is read by index. -/
def fetch {α : Type} (table : Table) (members : Array α) (i : Nat) : Except Failure α :=
  match members[i]? with
  | some a => .ok a
  | none => .error (.outOfRange table i members.size)

/-- The value of a row, out of the buffer. -/
def get (buffer : List UInt8) (row : Nat) : PlacedCells → Except Failure Value
  | uints vs => (fetch .row vs row).map .uint
  | ints vs => (fetch .row vs row).map .int
  | floats vs => (fetch .row vs row).map .float
  | bools vs => (fetch .row vs row).map .bool
  | texts entries indices => do
    let i ← fetch .row indices row
    let place ← fetch .dictionary entries i
    match Utf8.decode? (place.slice buffer) with
    | some s => return .text s
    | none => throw (.damaged .valueText)
  | blobs places => do
    let place ← fetch .row places row
    return .bytes (place.slice buffer)

end PlacedCells
end Columnar
