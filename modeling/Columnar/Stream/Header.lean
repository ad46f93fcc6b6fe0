import Columnar.Bytes.Word
import Columnar.Stream.Source

/-!
# The header of a stream

A stream opens with thirteen bytes: four that mark the format, its version, and
the fingerprint of the schema the rows were written with.

## Main results

* `Header.ofBytes_toBytes` — a header is read back.
-/

namespace Columnar

structure Header where
  magic : List UInt8
  version : UInt8
  fingerprint : UInt64
deriving DecidableEq, Repr

namespace Header

/-- The four bytes at the start of every stream. -/
def streamMagic : List UInt8 := [0x53, 0x43, 0x52, 0x54]

/-- The version of the format that is written, and the only one that is read. -/
def streamVersion : UInt8 := 2

/-- The length of a header. -/
def byteLength : Nat := 13

/-- The header of streams with a schema of this fingerprint. -/
def ofFingerprint (fingerprint : UInt64) : Header := ⟨streamMagic, streamVersion, fingerprint⟩

def toBytes (h : Header) : List UInt8 := h.magic ++ h.version :: Word.toBytes h.fingerprint

/-- The header in thirteen bytes. -/
def ofBytes (bs : List UInt8) : Header :=
  ⟨bs.take 4, bs.getD 4 0, Word.ofBytes ((bs.drop 5).take 8)⟩

/-- The header at the start of a source. -/
def read (s : Source) : Except Failure Header × Source :=
  match s.read byteLength with
  | (.complete bs, s) => (.ok (ofBytes bs), s)
  | (.ended, s) => (.error (.damaged .headerTruncated), s)
  | (.faulty fault, s) => (.error (.io fault), s)

/-- The header belongs to a stream of this format, of a known version, and with the expected
schema. -/
def check (h : Header) (expected : UInt64) : Except Failure Unit :=
  if h.magic ≠ streamMagic then .error (.damaged (.badMagic h.magic))
  else if h.version ≠ streamVersion then .error (.unsupportedVersion h.version)
  else if h.fingerprint ≠ expected then .error (.fingerprintMismatch expected h.fingerprint)
  else .ok ()

@[simp] theorem length_toBytes_ofFingerprint (f : UInt64) :
    (ofFingerprint f).toBytes.length = byteLength := by
  simp [ofFingerprint, toBytes, streamMagic, byteLength]

@[simp] theorem ofBytes_toBytes (f : UInt64) :
    ofBytes (ofFingerprint f).toBytes = ofFingerprint f := by
  have h : List.take 8 (Word.toBytes f) = Word.toBytes f := List.take_of_length_le (by simp)
  simp [ofBytes, toBytes, ofFingerprint, streamMagic, h]

end Header
end Columnar
