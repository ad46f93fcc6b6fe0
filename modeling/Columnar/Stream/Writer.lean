import Columnar.Page.Pool
import Columnar.Row.Binding
import Columnar.Schema.Fingerprint
import Columnar.Stream.Header
import Columnar.Stream.Settings
import Columnar.Stream.Sink

/-!
# Writing streams

A writer gathers rows in a draft.  When the draft is full, or on a flush, its
page goes to the sink behind its length.  The header precedes the first page; a
zero byte, which is the length of no page, closes the stream.

Every call gives the writer after it, also when it fails: what went to the sink
before the failure stays there.

## Main definitions

* `Writer.make` — a writer over an empty draft of its own.
* `Writer.makePooled`, `Writer.closePooled` — a writer whose draft comes from a
  pool and goes back to it.
* `Writer.writeRow`, `Writer.writeRecord`, `Writer.flush`, `Writer.close`.
-/

namespace Columnar

structure Writer (σ : Type) where
  sink : σ
  schema : Schema
  draft : Draft
  headerWritten : Bool
  closed : Bool
  /-- The row that the last record went through. -/
  scratch : Option Row
  tally : Tally

namespace Writer

variable {σ : Type}

/-- Go on after a success. -/
def andThen (p : Except Failure Unit × Writer σ) (f : Writer σ → Except Failure Unit × Writer σ) :
    Except Failure Unit × Writer σ :=
  match p with
  | (.ok (), w) => f w
  | (.error e, w) => (.error e, w)

@[simp] theorem andThen_ok (w : Writer σ) (f : Writer σ → Except Failure Unit × Writer σ) :
    andThen (.ok (), w) f = f w := rfl

@[simp] theorem andThen_error (e : Failure) (w : Writer σ)
    (f : Writer σ → Except Failure Unit × Writer σ) : andThen (.error e, w) f = (.error e, w) := rfl

/-- A writer that has written nothing. -/
def start (sink : σ) (s : Schema) (d : Draft) : Writer σ := ⟨sink, s, d, false, false, none, .zero⟩

/-- What has to hold before a stream is written or read. -/
def checkSetup (s : Schema) (settings : Settings) : Except Failure Unit :=
  match settings.check with
  | .error limit => .error (.badLimit limit)
  | .ok () => if s.isResolved then .ok () else .error (.unresolvedSchema s.name)

/-- A writer with a draft of its own. -/
def make (sink : σ) (s : Schema) (settings : Settings) : Except Failure (Writer σ) := do
  checkSetup s settings
  let d ← Draft.make s settings.pageRows
  return start sink s d

/-- A writer with a draft from a pool. -/
def makePooled (p : Pool) (sink : σ) (s : MarkedSchema) (settings : Settings) :
    Except Failure (Writer σ) × Pool :=
  match checkSetup s.schema settings with
  | .error e => (.error e, p)
  | .ok () =>
    let (d, p) := p.acquire s settings.pageRows
    (d.map fun d => start sink s.schema d.draft, p)

variable [ByteSink σ] [TextHash]

/-- Offer bytes to the sink; they count once all of them are taken. -/
def emit (w : Writer σ) (bs : List UInt8) : Except Failure Unit × Writer σ :=
  match ByteSink.write w.sink bs with
  | (sink, some fault) => (.error (.io fault), { w with sink })
  | (sink, none) => (.ok (), { w with sink, tally.bytes := w.tally.bytes + bs.length })

/-- Write the header, once. -/
def writeHeader (w : Writer σ) : Except Failure Unit × Writer σ :=
  if w.headerWritten then (.ok (), w) else
    andThen (w.emit (Header.ofFingerprint w.schema.fingerprint).toBytes) fun w =>
      (.ok (), { w with headerWritten := true })

/-- A page's body behind its length. -/
def frame (body : List UInt8) : List UInt8 := Leb128.encode body.length ++ body

/-- Write the draft's page, if it has rows, and start the draft anew. -/
def flushPage (w : Writer σ) : Except Failure Unit × Writer σ :=
  if w.draft.isEmpty then (.ok (), w) else
    match w.draft.encode with
    | .error e => (.error e, w)
    | .ok body =>
      -- the rows stay in the draft until the sink has taken the whole frame
      andThen (w.emit (frame body)) fun w =>
        (.ok (), { w with draft := w.draft.reset, tally.pages := w.tally.pages + 1 })

def flushSink (w : Writer σ) : Except Failure Unit × Writer σ :=
  match ByteSink.flush w.sink with
  | (sink, some fault) => (.error (.io fault), { w with sink })
  | (sink, none) => (.ok (), { w with sink })

/-- Put a row into the draft, and write its page once it is full. -/
def addRow (w : Writer σ) (r : Row) : Except Failure Unit × Writer σ :=
  match w.draft.appendRow r with
  | (.error e, draft) => (.error e, { w with draft })
  | (.ok (), draft) =>
    let w := { w with draft, tally.rows := w.tally.rows + 1 }
    if w.draft.isFull then w.flushPage else (.ok (), w)

/-- Write a row.  It has to have as many slots as the schema has fields, and a schema with the same
fingerprint. -/
def writeRow (w : Writer σ) (r : Row) : Except Failure Unit × Writer σ :=
  if w.closed then (.error (.misuse .writerClosed), w)
  else if r.width ≠ w.schema.width then
    (.error (.columnCountMismatch w.schema.width r.width), w)
  else if r.schema.fingerprint ≠ w.schema.fingerprint then
    (.error (.fingerprintMismatch w.schema.fingerprint r.schema.fingerprint), w)
  else andThen w.writeHeader fun w => w.addRow r

/-- Write the row that a record makes. -/
def writeRecord {α : Type} (w : Writer σ) (b : Binding α) (record : α) :
    Except Failure Unit × Writer σ :=
  match b.fill record (Row.reuse w.scratch b.schema) with
  | (.error e, r) => (.error e, { w with scratch := some r })
  | (.ok (), r) =>
    let (result, w) := w.writeRow r
    (result, { w with scratch := some r })

/-- Write the rows so far as a page. -/
def flush (w : Writer σ) : Except Failure Unit × Writer σ :=
  if w.closed then (.error (.misuse .writerClosed), w) else
    andThen w.writeHeader fun w => andThen w.flushPage fun w => w.flushSink

/-- Write the rows so far and the end of the stream.  To close again does nothing. -/
def close (w : Writer σ) : Except Failure Unit × Writer σ :=
  if w.closed then (.ok (), w) else
    andThen w.writeHeader fun w => andThen w.flushPage fun w => andThen (w.emit [0]) fun w =>
      andThen w.flushSink fun w => (.ok (), { w with closed := true })

/-- Close a writer whose draft came from a pool, under a mark; once it is closed the draft goes
back. -/
def closePooled (w : Writer σ) (p : Pool) (owners : Nat → Nat) (mark : Nat) :
    (Except Failure Unit × Writer σ) × Pool :=
  let after := w.close
  (after, if !w.closed && after.2.closed then p.release owners ⟨mark, after.2.draft⟩ else p)

end Writer
end Columnar
