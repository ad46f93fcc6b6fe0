import Columnar.Column.Blobs
import Columnar.Fnv1a
import Std.Data.HashMap

/-!
# Columns of texts

Each different text is stored once, in a dictionary, and each row refers to its
entry by position.  Entries stand in the order in which they were first needed.
While a column grows, an entry is found by a hash of its text; entries with one
hash are told apart by comparing texts, so any hash will do.  Cutting a column
short also drops the entries that only dropped rows needed, and their places.

## Main definitions

* `Dictionary` — entries, their places by hash, and the entry of each row.
* `TextHash` — the hash by which drafts look entries up.
* `Dictionary.append`, `Dictionary.truncate` — growing and cutting a column.
* `Dictionary.encode`, `Dictionary.decode` — its bytes.

## Main results

* `Dictionary.decode_encode` — entries and indices are read back.
-/

namespace Columnar

/-- The hash by which the columns of drafts look their entries up. -/
class TextHash where
  digest : String → UInt64

namespace Builtin

/-- A hash to run drafts with. -/
scoped instance textHash : TextHash := ⟨fun s => Fnv1a.hash (Utf8.encode s)⟩

end Builtin

/-- A column of texts as it grows. -/
structure Dictionary where
  /-- The UTF-8 bytes of the entries. -/
  entries : Arena
  /-- The places of the entries with a hash. -/
  places : Std.HashMap UInt64 (List Nat)
  /-- The place of each row's entry. -/
  indices : Array Nat

namespace Dictionary

def empty : Dictionary := ⟨.empty, ∅, #[]⟩

/-- How many rows there are. -/
def length (d : Dictionary) : Nat := d.indices.size

/-- An entry. -/
def textAt? (d : Dictionary) (i : Nat) : Option String := (d.entries.get? i).bind Utf8.decode?

/-- The texts of all rows. -/
def rows (d : Dictionary) : List String := d.indices.toList.map fun i => (d.textAt? i).getD ""

/-- Note the place of an entry. -/
def addPlace (hash : String → UInt64) (m : Std.HashMap UInt64 (List Nat)) (s : String) (i : Nat) :
    Std.HashMap UInt64 (List Nat) :=
  m.insert (hash s) (m.getD (hash s) [] ++ [i])

/-- The places below a number; a hash that has no other places goes. -/
def placesBelow (m : Std.HashMap UInt64 (List Nat)) (k : Nat) : Std.HashMap UInt64 (List Nat) :=
  m.filterMap fun _ is =>
    let kept := is.filter (· < k)
    if kept.isEmpty then none else some kept

/-- The place of a text among the entries. -/
def find? (hash : String → UInt64) (d : Dictionary) (s : String) : Option Nat :=
  (d.places.getD (hash s) []).find? fun i => d.entries.get? i == some (Utf8.encode s)

/-- One more row.  A text without an entry gets one, if there is room for it. -/
def append (hash : String → UInt64) (d : Dictionary) (s : String) : Except Overflow Dictionary :=
  match find? hash d s with
  | some i => .ok { d with indices := d.indices.push i }
  | none =>
    if !d.entries.hasRoom (Utf8.encode s).length then .error .texts
    else if Overflow.maxEntries ≤ d.entries.size then .error .entries
    else .ok
      { entries := d.entries.push (Utf8.encode s)
        places := addPlace hash d.places s d.entries.size
        indices := d.indices.push d.entries.size }

/-- How many entries some rows need: one more than the greatest place. -/
def needed (indices : List Nat) : Nat := indices.foldl (fun n i => max n (i + 1)) 0

/-- Only the first `n` rows, and the entries they need. -/
def truncate (d : Dictionary) (n : Nat) : Dictionary :=
  if d.indices.size ≤ n then d else
    let indices := d.indices.take n
    let kept := needed indices.toList
    if kept < d.entries.size then
      { entries := d.entries.truncate kept, indices, places := placesBelow d.places kept }
    else { d with indices }

/-- The bytes of an entry. -/
def encodeEntry (s : String) : List UInt8 := BlobColumn.encodeOne (Utf8.encode s)

def encode (d : Dictionary) : List UInt8 :=
  Leb128.encode d.entries.size ++ d.entries.toList.flatMap BlobColumn.encodeOne ++
    (Leb128.encode d.indices.size ++ d.indices.toList.flatMap Leb128.encode)

def takeEntry (bs : List UInt8) : Except Failure (String × List UInt8) := do
  let (text, rest) ← Take.prefixed bs
  match Utf8.decode? text with
  | some s => return (s, rest)
  | none => throw (.damaged .dictionaryText)

/-- The place of an entry in a dictionary of some size. -/
def takeIndex (size : Nat) (bs : List UInt8) : Except Failure (Nat × List UInt8) := do
  let (i, rest) ← Take.number bs
  if i < size then return (i, rest)
  throw (.outOfRange .dictionary i size)

/-- The entries, and the place of each row's entry. -/
def decode (bs : List UInt8) : Except Failure ((List String × List Nat) × List UInt8) := do
  let (size, rest) ← Take.count 1 bs
  let (entries, rest) ← Take.times takeEntry size rest
  let (count, rest) ← Take.count 1 rest
  let (indices, rest) ← Take.times (takeIndex entries.length) count rest
  return ((entries, indices), rest)

/-! ### Reading what was written -/

theorem one_le_length_encodeEntry (s : String) : 1 ≤ (encodeEntry s).length :=
  BlobColumn.one_le_length_encodeOne _

theorem takeEntry_encode {s : String} (h : (Utf8.encode s).length < 2 ^ 64) (rest : List UInt8) :
    takeEntry (encodeEntry s ++ rest) = .ok (s, rest) := by
  rw [encodeEntry, BlobColumn.encodeOne, List.append_assoc, takeEntry, Take.prefixed_encode h]
  show (match Utf8.decode? (Utf8.encode s) with | some s => _ | none => _) = _
  rw [Utf8.decode?_encode]
  rfl

theorem takeIndex_encode {size i : Nat} (hi : i < size) (h : i < 2 ^ 64) (rest : List UInt8) :
    takeIndex size (Leb128.encode i ++ rest) = .ok (i, rest) := by
  rw [takeIndex, Take.number_encode h]
  show (if i < size then _ else _) = _
  rw [if_pos hi]
  rfl

/-- Entries and indices are read back if all indices are those of entries. -/
theorem decode_encode {entries : List String} {indices : List Nat}
    (hentries : entries.length < 2 ^ 64) (hindices : indices.length < 2 ^ 64)
    (htexts : ∀ s ∈ entries, (Utf8.encode s).length < 2 ^ 64)
    (hplaces : ∀ i ∈ indices, i < entries.length) (rest : List UInt8) :
    decode (Leb128.encode entries.length ++ entries.flatMap encodeEntry ++
        (Leb128.encode indices.length ++ indices.flatMap Leb128.encode) ++ rest) =
      .ok ((entries, indices), rest) := by
  have hlen1 (more : List UInt8) :
      entries.length * 1 ≤ (entries.flatMap encodeEntry ++ more).length := by
    have := Take.length_le_length_flatMap entries one_le_length_encodeEntry
    rw [List.length_append]
    omega
  have hlen2 : indices.length * 1 ≤ (indices.flatMap Leb128.encode ++ rest).length := by
    have := Take.length_le_length_flatMap indices Leb128.one_le_length_encode
    rw [List.length_append]
    omega
  simp only [List.append_assoc]
  rw [decode, Take.count_encode hentries (hlen1 _)]
  show (Take.times takeEntry entries.length _ >>= _) = _
  rw [Take.times_flatMap fun s hs more => takeEntry_encode (htexts s hs) more]
  show (Take.count 1 _ >>= _) = _
  rw [Take.count_encode hindices hlen2]
  show (Take.times (takeIndex entries.length) indices.length _ >>= _) = _
  rw [Take.times_flatMap fun i hi more =>
    takeIndex_encode (hplaces i hi) (Nat.lt_trans (hplaces i hi) hentries) more]
  rfl

end Dictionary
end Columnar
