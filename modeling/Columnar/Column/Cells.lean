import Columnar.Column

/-!
# Decoded columns

The values of one field of a page that was read.  Texts stay a dictionary and the
places of the rows' entries.

## Main definitions

* `Cells.decode` — the values at the front of some bytes.
* `Cells.get` — the value of a row.
-/

namespace Columnar

/-- The values of one field of a page that was read. -/
inductive Cells where
  | uints (vs : Array UInt64)
  | ints (vs : Array Int64)
  | floats (vs : Array Binary64)
  | bools (vs : Array Bool)
  | texts (entries : Array String) (indices : Array Nat)
  | blobs (vs : Array (List UInt8))
deriving DecidableEq, Repr

namespace Cells

def length : Cells → Nat
  | uints vs => vs.size
  | ints vs => vs.size
  | floats vs => vs.size
  | bools vs => vs.size
  | texts _ indices => indices.size
  | blobs vs => vs.size

def storage : Cells → Storage
  | uints _ => .uint
  | ints _ => .int
  | floats _ => .float
  | bools _ => .bool
  | texts _ _ => .text
  | blobs _ => .bytes

/-- The values of a storage at the front of some bytes. -/
def decode (s : Storage) (bs : List UInt8) : Except Failure (Cells × List UInt8) :=
  match s with
  | .uint => do
    let (vs, rest) ← UintColumn.decode bs
    return (uints vs.toArray, rest)
  | .int => do
    let (vs, rest) ← IntColumn.decode bs
    return (ints vs.toArray, rest)
  | .float => do
    let (vs, rest) ← FloatColumn.decode bs
    return (floats vs.toArray, rest)
  | .bool => do
    let (vs, rest) ← BoolColumn.decode bs
    return (bools vs.toArray, rest)
  | .text => do
    let ((entries, indices), rest) ← Dictionary.decode bs
    return (texts entries.toArray indices.toArray, rest)
  | .bytes => do
    let (vs, rest) ← BlobColumn.decode bs
    return (blobs vs.toArray, rest)

/-- The value of a row, where there is one. -/
def get? (row : Nat) : Cells → Option Value
  | uints vs => vs[row]?.map .uint
  | ints vs => vs[row]?.map .int
  | floats vs => vs[row]?.map .float
  | bools vs => vs[row]?.map .bool
  | texts entries indices => (indices[row]?.bind fun i => entries[i]?).map .text
  | blobs vs => vs[row]?.map .bytes

/-- The value of a row. -/
def get (cells : Cells) (row : Nat) : Except Failure Value :=
  match cells.get? row with
  | some v => .ok v
  | none => .error (.outOfRange .row row cells.length)

end Cells
end Columnar
