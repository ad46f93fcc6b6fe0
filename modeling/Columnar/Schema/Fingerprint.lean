import Columnar.Fnv1a
import Columnar.Schema

/-!
# Fingerprints of schemas

Two sides of a stream know each other's schema by a hash of its description.
The description spells out names, kinds, targets, flags, attributes and declared
defaults; what resolving has found is not part of it.

## Main definitions

* `Schema.description` — the bytes that describe a schema.
* `Schema.fingerprint` — their hash.
-/

namespace Columnar

/-- A character of ASCII as a byte. -/
def asciiByte (c : Char) : UInt8 := UInt8.ofNat c.toNat

/-- A count as eight bytes. -/
def countBytes (n : Nat) : List UInt8 := Word.toBytes (UInt64.ofNat n)

/-- Bytes behind their count. -/
def countedBytes (bs : List UInt8) : List UInt8 := countBytes bs.length ++ bs

def flagByte (b : Bool) : UInt8 := if b then 1 else 0

namespace Default

/-- A declared default: a letter for its form, then what it holds. -/
def description : Default → List UInt8
  | typed (.uint n) => asciiByte 'u' :: Word.toBytes n
  | typed (.int n) => asciiByte 'i' :: Word.toBytes n.toUInt64
  | typed (.float x) => asciiByte 'f' :: Word.toBytes x.bits
  | typed (.bool b) => [asciiByte 'b', flagByte b]
  | typed (.text s) => asciiByte 's' :: countedBytes (Utf8.encode s)
  | typed (.bytes bs) => asciiByte 'x' :: countedBytes bs
  | literal text => asciiByte 'l' :: countedBytes (Utf8.encode text)

end Default

namespace Field

/-- An absent part of a target is described like an empty one. -/
def description (f : Field) : List UInt8 :=
  Fnv1a.terminated f.name ++ Fnv1a.terminated f.rawType ++ [f.kind.byte] ++
    Fnv1a.terminated (f.targetSchema.getD "") ++ Fnv1a.terminated (f.targetField.getD "") ++
    [flagByte f.autoIncrement] ++ countBytes f.attributes.length ++
    f.attributes.flatMap Fnv1a.terminated ++
    match f.declaredDefault with
    | none => [0]
    | some d => 1 :: d.description

end Field

namespace Schema

def description (s : Schema) : List UInt8 :=
  Fnv1a.terminated s.name ++ countBytes s.fields.length ++ s.fields.flatMap Field.description

/-- The hash of the description. -/
def fingerprint (s : Schema) : UInt64 := Fnv1a.hash s.description

end Schema
end Columnar
