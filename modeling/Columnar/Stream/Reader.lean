import Columnar.Page.Feed
import Columnar.Row.Binding
import Columnar.Schema.Fingerprint
import Columnar.Stream.Header
import Columnar.Stream.Settings

/-!
# Reading streams

A reader checks the header of a stream and then hands out the rows of its pages
in order.  A stream ends at a zero byte, or where its source ends between two
pages.  After a page that is refused the reader is poisoned: it reads no more.

## Main definitions

* `Reader.make` — open a stream.
* `Reader.advance` — get a page that has a row to hand out.
* `Reader.readRow`, `Reader.readView`, `Reader.nextRow`, `Reader.readRecord` —
  the next row, in four forms.
-/

namespace Columnar

structure Reader where
  source : Source
  header : Header
  feed : Feed
  finished : Bool
  poisoned : Bool
  /-- The row that the last record went through. -/
  scratch : Option Row
  tally : Tally

namespace Reader

/-- Open a stream. -/
def make (source : Source) (s : Schema) (settings : Settings) : Except Failure Reader := do
  match settings.check with
  | .error limit => throw (.badLimit limit)
  | .ok () => pure ()
  if !s.isResolved then throw (.unresolvedSchema s.name)
  let (header, source) := Header.read source
  let header ← header
  header.check s.fingerprint
  let feed ← Feed.make s settings.maxPageBytes
  return ⟨source, header, feed, false, false, none, ⟨0, 0, Header.byteLength⟩⟩

def schema (r : Reader) : Schema := r.feed.schema

/-- The length of a page of some length behind that length. -/
def frameLength (n : Nat) : Nat := Leb128.size n + n

/-- Load pages until there is a row to hand out; `false` at the end of the stream. -/
def seek (r : Reader) : Except Failure Bool × Reader :=
  if r.feed.remaining ≠ 0 then
    -- the row counts from here on, though it is handed out by the caller
    (.ok true, { r with tally.rows := r.tally.rows + 1 })
  else if r.finished then (.ok false, r)
  else
    match _h : r.feed.load r.source with
    | (.error e, feed, source) => (.error e, { r with feed, source, poisoned := true })
    | (.ok false, feed, source) =>
      (.ok false, { r with
        feed, source
        finished := true
        tally.bytes := r.tally.bytes + if feed.terminated then 1 else 0 })
    | (.ok true, feed, source) =>
      seek { r with
        feed, source
        tally.pages := r.tally.pages + 1
        tally.bytes := r.tally.bytes + frameLength feed.pageLength }
termination_by r.source.bytes.length
decreasing_by exact Feed.length_lt_of_load _h

/-- Get a page that has a row to hand out, unless the reader is poisoned. -/
def advance (r : Reader) : Except Failure Bool × Reader :=
  if r.poisoned then (.error (.misuse .readerPoisoned), r) else r.seek

/-- A row can take the rows of the stream: it has as many slots as the schema has fields, and a
schema with the same fingerprint. -/
def accepts (r : Reader) (row : Row) : Except Failure Unit :=
  if row.width ≠ r.schema.width then .error (.columnCountMismatch r.schema.width row.width)
  else if row.schema.fingerprint ≠ r.schema.fingerprint then
    .error (.fingerprintMismatch r.schema.fingerprint row.schema.fingerprint)
  else .ok ()

/-- The next row, into a given one; `false` at the end of the stream. -/
def readRow (r : Reader) (row : Row) : Except Failure Bool × Reader × Row :=
  match r.accepts row with
  | .error e => (.error e, r, row)
  | .ok () =>
    match r.advance with
    | (.error e, r) => (.error e, r, row)
    | (.ok false, r) => (.ok false, r, row)
    | (.ok true, r) =>
      match r.feed.readRow row with
      | (.ok more, feed, row) => (.ok more, { r with feed }, row)
      | (.error e, feed, row) => (.error e, { r with feed, poisoned := true }, row)

/-- The next row, as a view. -/
def readView (r : Reader) : Except Failure (Option View) × Reader :=
  match r.advance with
  | (.error e, r) => (.error e, r)
  | (.ok false, r) => (.ok none, r)
  | (.ok true, r) =>
    let (view, feed) := r.feed.nextView
    (.ok view, { r with feed })

/-- The next row, as a new one. -/
def nextRow (r : Reader) : Except Failure (Option Row) × Reader :=
  match r.readView with
  | (.error e, r) => (.error e, r)
  | (.ok none, r) => (.ok none, r)
  | (.ok (some v), r) => (v.toRow.map some, r)

/-- The next row, into a record; `false` at the end of the stream. -/
def readRecord {α : Type} (r : Reader) (b : Binding α) (record : α) :
    Except Failure Bool × Reader × α :=
  match r.readRow (Row.reuse r.scratch b.schema) with
  | (.ok true, r, row) => (.ok true, { r with scratch := some row }, b.apply row record)
  | (result, r, row) => (result, { r with scratch := some row }, record)

end Reader
end Columnar
