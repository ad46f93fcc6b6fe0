import Columnar.Kind
import Columnar.Text.Quoted

/-!
# Failures

Everything that can go wrong, by cause.  A `Failure` carries the facts of the
case; its wording is produced in one place, `Failure.message`.

## Main definitions

* `Damage` — what is wrong with the bytes of a stream or page.
* `Misuse` — an operation that the state of its subject does not allow.
* `Overflow` — a store of a column that has no room for something more.
* `Failure` — all causes, with `Failure.message`.
* `Failure.isCorruption`, `Failure.isSchemaError` — two families of causes.
-/

namespace Columnar

/-- What a byte source or sink reports. -/
inductive IoFault where
  | sourceUnavailable
  | sinkUnavailable
  | sinkFull
  /-- The sink accepts no further byte and reports no cause. -/
  | nothingWritten
  | flushFailed
deriving DecidableEq, Repr

namespace IoFault

def message : IoFault → String
  | sourceUnavailable => "source unavailable"
  | sinkUnavailable => "sink unavailable"
  | sinkFull => "sink full"
  | nothingWritten => "failed to write whole buffer"
  | flushFailed => "flush failed"

end IoFault

/-- What is wrong with the bytes of a stream or page. -/
inductive Damage where
  | varintTruncated
  | varintTooLarge
  | streamEndsInVarint
  | pageEnds
  /-- A length prefix promises more bytes than are left. -/
  | lengthTooLarge (length left : Nat)
  /-- A count promises more entries than the bytes that are left can hold. -/
  | countTooLarge (count left : Nat)
  | deltaTooLarge
  | boolByte (b : UInt8)
  | dictionaryText
  /-- The bytes of a text are no text. -/
  | valueText
  | streamEndsInPage
  | pageTooLong (length limit : Nat)
  | pageTooLarge
  | unknownSection (index : Nat)
  | repeatedSection (field : Nat)
  | kindByte (field : Nat) (b : UInt8) (kind : Kind)
  | valueCount (field values rows : Nat)
  | sectionRest (left field : Nat)
  | pageRest
  | tooManyRows (rows limit : Nat)
  | headerTruncated
  | badMagic (magic : List UInt8)
deriving DecidableEq, Repr

namespace Damage

/-- A byte as two hexadecimal digits. -/
def hexByte (b : UInt8) : String := String.ofList (Text.hexPadded 2 b.toNat)

def message : Damage → String
  | varintTruncated => "truncated varint"
  | varintTooLarge => "varint overflows u64"
  | streamEndsInVarint => "stream ends inside varint"
  | pageEnds => "unexpected end of page"
  | lengthTooLarge length left =>
    "length " ++ toString length ++ " exceeds remaining " ++ toString left ++ " bytes"
  | countTooLarge count left =>
    "count " ++ toString count ++ " cannot fit in " ++ toString left ++ " bytes"
  | deltaTooLarge => "uint delta overflows u64"
  | boolByte b => "invalid bool byte 0x" ++ hexByte b
  | dictionaryText => "dictionary entry is not valid UTF-8"
  | valueText => "string value is not valid UTF-8"
  | streamEndsInPage => "stream ends inside page"
  | pageTooLong length limit =>
    "page length " ++ toString length ++ " exceeds limit " ++ toString limit
  | pageTooLarge => "page exceeds size limit"
  | unknownSection index => "column tagged with unknown field " ++ toString index
  | repeatedSection field => "field " ++ toString field ++ " appears twice"
  | kindByte field b kind =>
    "field " ++ toString field ++ " has kind byte " ++ toString b.toNat ++ ", schema expects " ++
      kind.name
  | valueCount field values rows =>
    "field " ++ toString field ++ " holds " ++ toString values ++ " values for " ++ toString rows ++
      " rows"
  | sectionRest left field => toString left ++ " trailing bytes in field " ++ toString field
  | pageRest => "trailing bytes after last column"
  | tooManyRows rows limit =>
    "row count " ++ toString rows ++ " exceeds page limit " ++ toString limit
  | headerTruncated => "stream shorter than header"
  | badMagic magic => "bad magic [" ++ String.intercalate ", " (magic.map hexByte) ++ "]"

end Damage

/-- An operation that the state of its subject does not allow. -/
inductive Misuse where
  | writerClosed
  | readerPoisoned
  | valueRepeated (field : Nat)
  | presenceRepeated (field : Nat)
  | fieldMissing (name : String)
  | rowOpen
deriving DecidableEq, Repr

namespace Misuse

def message : Misuse → String
  | writerClosed => "writer is closed"
  | readerPoisoned => "reader is poisoned by an earlier decode error"
  | valueRepeated field => "field " ++ toString field ++ " already has a value in this row"
  | presenceRepeated field =>
    "presence of field " ++ toString field ++ " already recorded in this row"
  | fieldMissing name => "row is missing field " ++ name
  | rowOpen => "cannot encode a page with an unsealed row"

end Misuse

/-- A limit that nothing can work under. -/
inductive BadLimit where
  | pageRows
  | pageBytes
  /-- A draft was asked for with a row limit of zero. -/
  | draftRows
deriving DecidableEq, Repr

namespace BadLimit

def message : BadLimit → String
  | pageRows => "Page row limit must be at least 1"
  | pageBytes => "Max page bytes must be at least 64"
  | draftRows => "page row limit must be at least 1"

end BadLimit

/-- A store of a column that has no room for something more. -/
inductive Overflow where
  /-- The bytes of the texts of a dictionary. -/
  | texts
  /-- The entries of a dictionary. -/
  | entries
  /-- The bytes of byte strings. -/
  | blobs
deriving DecidableEq, Repr

namespace Overflow

/-- The most bytes that the different texts of a column, or its byte strings, may take together. -/
def maxBytes : Nat := 4294967295

/-- The most entries of a dictionary. -/
def maxEntries : Nat := 4294967296

def message : Overflow → String
  | texts => "string dictionary would exceed " ++ toString maxBytes ++ " bytes"
  | entries => "too many dictionary entries"
  | blobs => "bytes arena would exceed " ++ toString maxBytes ++ " bytes"

end Overflow

/-- A table that is read by index. -/
inductive Table where
  | field
  | row
  | dictionary
deriving DecidableEq, Repr

namespace Table

def name : Table → String
  | field => "field"
  | row => "row"
  | dictionary => "dictionary"

end Table

/-- The causes of failure. -/
inductive Failure where
  | io (fault : IoFault)
  | damaged (damage : Damage)
  | unsupportedVersion (version : UInt8)
  | fingerprintMismatch (expected actual : UInt64)
  | columnCountMismatch (expected actual : Nat)
  | unknownField (schema field : String)
  | unknownSchema (name : String)
  /-- Following references came back to a field; the path names the fields passed. -/
  | circularReference (path : List String)
  | invalidDefault (field literal : String) (kind : Kind)
  | outOfRange (table : Table) (index size : Nat)
  /-- A row was given a value that its field does not store. -/
  | storageMismatch (field : String) (expected actual : Storage)
  /-- A draft was given a value that a field of this kind does not store. -/
  | kindMismatch (field : String) (expected : Kind) (actual : Storage)
  /-- A column has no room for a value. -/
  | overflow (store : Overflow)
  | pageFull
  /-- More bytes were asked for than any buffer can have.  The program stops where this happens: what it
  was at is not used again. -/
  | beyondMemory
  | unresolvedSchema (name : String)
  | duplicateSchema (name : String)
  | badLimit (limit : BadLimit)
  | misuse (cause : Misuse)
deriving DecidableEq, Repr

namespace Failure

/-- The wording of a failure. -/
def message : Failure → String
  | io fault => "I/O error: " ++ fault.message
  | damaged damage => "Malformed stream: " ++ damage.message
  | unsupportedVersion version => "Unsupported stream version: " ++ toString version.toNat
  | fingerprintMismatch expected actual =>
    "Schema fingerprint mismatch: expected " ++
      String.ofList (Text.hexPadded 16 expected.toNat) ++ ", got " ++
      String.ofList (Text.hexPadded 16 actual.toNat)
  | columnCountMismatch expected actual =>
    "Column count mismatch: expected " ++ toString expected ++ ", got " ++ toString actual
  | unknownField schema field => "Unknown field " ++ field ++ " in schema " ++ schema
  | unknownSchema name => "Unknown schema: " ++ name
  | circularReference path => "Circular reference: " ++ String.intercalate " -> " path
  | invalidDefault field literal kind =>
    "Invalid default literal " ++ Text.quoted literal ++ " for field " ++ field ++ " of kind " ++
      kind.name
  | outOfRange table index size =>
    table.name ++ " index " ++ toString index ++ " out of range (len " ++ toString size ++ ")"
  | storageMismatch field expected actual =>
    "Kind mismatch on field " ++ field ++ ": expected " ++ expected.name ++ ", got " ++ actual.name
  | kindMismatch field expected actual =>
    "Kind mismatch on field " ++ field ++ ": expected " ++ expected.name ++ ", got " ++ actual.name
  | overflow store => "Value overflow: " ++ store.message
  | pageFull => "Page is full"
  | beyondMemory => "capacity overflow"
  | unresolvedSchema name => "Schema " ++ name ++ " has not been resolved"
  | duplicateSchema name => "Duplicate schema: " ++ name
  | badLimit limit => "Invalid configuration: " ++ limit.message
  | misuse cause => "Invalid operation: " ++ cause.message

/-- The bytes of a stream are not what they should be. -/
def isCorruption : Failure → Bool
  | damaged _ | outOfRange .. | unsupportedVersion _ => true
  | _ => false

/-- A schema is at fault, or two schemas do not fit. -/
def isSchemaError : Failure → Bool
  | fingerprintMismatch .. | unknownSchema _ | unknownField .. | circularReference _
  | invalidDefault .. | unresolvedSchema _ => true
  | _ => false

end Failure
end Columnar
