import Columnar.Bytes.Cursor

/-!
# Columns of byte strings

The byte strings of a column are gathered in one store, one after the other, and
each is known by its place there.  Cutting a column short cuts the store off where
the first string that goes began.  The entries of a dictionary are kept in the same
way.

## Main definitions

* `Arena` — byte strings in a store.
* `Arena.hasRoom` — a store does not take more than `Overflow.maxBytes` bytes.
* `Arena.push`, `Arena.truncate` — growing and cutting it.
* `BlobColumn.encode`, `BlobColumn.decode` — the bytes of a column of byte strings.

## Main results

* `BlobColumn.decode_encode` — a column of byte strings is read back.
-/

namespace Columnar

/-- Byte strings in one store, and the place of each. -/
structure Arena where
  bytes : Array UInt8
  places : Array Span
deriving DecidableEq, Repr

namespace Arena

/-- No byte strings. -/
def empty : Arena := ⟨#[], #[]⟩

/-- How many byte strings there are. -/
def size (a : Arena) : Nat := a.places.size

/-- The bytes at a place of the store. -/
def read (a : Arena) (p : Span) : List UInt8 :=
  (a.bytes.extract p.offset (p.offset + p.length)).toList

/-- One of the byte strings. -/
def get? (a : Arena) (i : Nat) : Option (List UInt8) := a.places[i]?.map a.read

/-- The byte strings in order. -/
def toList (a : Arena) : List (List UInt8) := a.places.toList.map a.read

/-- The store can take some more bytes. -/
def hasRoom (a : Arena) (n : Nat) : Bool := a.bytes.size + n ≤ Overflow.maxBytes

/-- One more byte string, at the end of the store. -/
def push (a : Arena) (bs : List UInt8) : Arena :=
  ⟨a.bytes ++ bs, a.places.push ⟨a.bytes.size, bs.length⟩⟩

/-- Only the first `n` byte strings.  The store ends where the next one began. -/
def truncate (a : Arena) (n : Nat) : Arena :=
  match a.places[n]? with
  | some p => ⟨a.bytes.take p.offset, a.places.take n⟩
  | none => a

@[simp] theorem size_empty : empty.size = 0 := rfl

@[simp] theorem size_push (a : Arena) (bs : List UInt8) : (a.push bs).size = a.size + 1 :=
  Array.size_push _

@[simp] theorem length_toList (a : Arena) : a.toList.length = a.size := by simp [toList, size]

end Arena

namespace BlobColumn

def encodeOne (bs : List UInt8) : List UInt8 := Leb128.encode bs.length ++ bs

/-- Each list of bytes stands behind its length. -/
def encode (vs : List (List UInt8)) : List UInt8 :=
  Leb128.encode vs.length ++ vs.flatMap encodeOne

def decode (bs : List UInt8) : Except Failure (List (List UInt8) × List UInt8) := do
  let (count, rest) ← Take.count 1 bs
  Take.times Take.prefixed count rest

theorem one_le_length_encodeOne (bs : List UInt8) : 1 ≤ (encodeOne bs).length := by
  have := Leb128.one_le_length_encode bs.length
  rw [encodeOne, List.length_append]
  omega

theorem decode_encode {vs : List (List UInt8)} (h : vs.length < 2 ^ 64)
    (hvs : ∀ bs ∈ vs, bs.length < 2 ^ 64) (rest : List UInt8) :
    decode (encode vs ++ rest) = .ok (vs, rest) := by
  have hlen : vs.length * 1 ≤ (vs.flatMap encodeOne ++ rest).length := by
    have := Take.length_le_length_flatMap vs one_le_length_encodeOne
    rw [List.length_append]
    omega
  rw [encode, List.append_assoc, decode, Take.count_encode h hlen]
  refine Take.times_flatMap (fun bs hbs more => ?_) rest
  rw [encodeOne, List.append_assoc]
  exact Take.prefixed_encode (hvs bs hbs) more

end BlobColumn
end Columnar
