import Columnar.Page.View
import Columnar.Stream.Source

/-!
# Feeds of rows from pages

A feed holds one page at a time and hands out its rows in order.  Loading a page
drops the one before; a page that is refused leaves the feed without rows.

## Main definitions

* `Feed.make` — a feed without a page.
* `Feed.load` — the next page of a source, behind its length.
* `Feed.loadBody` — a page given by its body.
* `Feed.maxBuffer` — a longer body finds no room, even if the limit lets it.
* `Feed.nextView`, `Feed.readRow` — the next row.
-/

namespace Columnar

structure Feed where
  schema : Schema
  layout : List (Kind × Storage)
  /-- The longest body that is loaded. -/
  limit : Nat
  /-- The body that was last looked at. -/
  body : List UInt8
  /-- A table for each field.  They are never cleared: a page is read over what earlier ones left. -/
  tables : List PlacedSection
  /-- The number of rows of the page. -/
  rows : Nat
  /-- The next row to hand out. -/
  next : Nat
  /-- The last thing loaded was the mark at the end of a stream. -/
  terminated : Bool
deriving Repr

namespace Feed

/-- A feed without a page. -/
def make (s : Schema) (limit : Nat) : Except Failure Feed := do
  let layout ← s.layout
  return ⟨s, layout, limit, [], layout.map fun (_, storage) => .vacant storage, 0, 0, false⟩

/-- The number of rows still to be handed out. -/
def remaining (f : Feed) : Nat := f.rows - f.next

def pageLength (f : Feed) : Nat := f.body.length

/-- The feed without its page; the tables stay as they are. -/
def cleared (f : Feed) : Feed := { f with body := [], rows := 0, next := 0, terminated := false }

/-- Decode a body.  One that is refused is kept, but it has no rows. -/
def decode (f : Feed) (body : List UInt8) : Except Failure Unit × Feed :=
  match Sections.decode f.layout f.limit f.tables body with
  | (.ok rows, tables) => (.ok (), { f.cleared with body, tables, rows })
  | (.error e, tables) => (.error e, { f.cleared with body, tables })

/-- The most bytes that a buffer can have. -/
def maxBuffer : Nat := 2 ^ 63 - 1

/-- The page of a body. -/
def loadBody (f : Feed) (body : List UInt8) : Except Failure Unit × Feed :=
  if f.limit < body.length then (.error (.damaged .pageTooLarge), f.cleared)
  else if maxBuffer < body.length then (.error .beyondMemory, f.cleared)
  else f.decode body

/-- The next page of a source, if there is one: a length, which is zero at the end of a stream, and a
body of that length. -/
def load (f : Feed) (src : Source) : Except Failure Bool × Feed × Source :=
  match src.number with
  | (.error e, src) => (.error e, f.cleared, src)
  | (.ok none, src) => (.ok false, f.cleared, src)
  | (.ok (some 0), src) => (.ok false, { f.cleared with terminated := true }, src)
  | (.ok (some n), src) =>
    if f.limit < n then (.error (.damaged (.pageTooLong n f.limit)), f.cleared, src)
    -- room is made for the whole body before any of it is read
    else if maxBuffer < n then (.error .beyondMemory, f.cleared, src)
    else match src.read n with
      | (.ended, src) => (.error (.damaged .streamEndsInPage), f.cleared, src)
      | (.faulty fault, src) => (.error (.io fault), f.cleared, src)
      | (.complete body, src) =>
        let (result, f) := f.decode body
        (result.map fun _ => true, f, src)

theorem length_le_of_read {n : Nat} {src src' : Source} {d : Delivery}
    (h : src.read n = (d, src')) : src'.bytes.length ≤ src.bytes.length := by
  unfold Source.read at h
  split at h
  · cases h
    simp
  · split at h <;> cases h <;> simp [Source.drained]

/-- Loading a page takes at least one byte. -/
theorem length_lt_of_load {f f' : Feed} {src src' : Source}
    (h : f.load src = (.ok true, f', src')) : src'.bytes.length < src.bytes.length := by
  unfold load at h
  split at h
  · cases h
  · cases h
  · cases h
  · next n mid hn =>
    have hmid := Source.length_lt_of_number hn
    split at h
    · cases h
    · split at h
      · cases h
      · split at h
        · cases h
        · cases h
        · next body rest hr =>
          have hrest := length_le_of_read hr
          simp only [Prod.mk.injEq] at h
          obtain ⟨-, -, rfl⟩ := h
          omega

/-- The next row, as a view. -/
def nextView (f : Feed) : Option View × Feed :=
  if f.next < f.rows then (some ⟨f.schema, f.body, f.tables, f.next⟩, { f with next := f.next + 1 })
  else (none, f)

/-- The next row, into a row of any schema.  A slot beyond the page's fields is a failure. -/
def readRow (f : Feed) (r : Row) : Except Failure Bool × Feed × Row :=
  match f.nextView with
  | (none, f) => (.ok false, f, r)
  | (some v, f) =>
    let (result, r) := r.refill v.get
    (result.map fun _ => true, f, r)

end Feed
end Columnar
