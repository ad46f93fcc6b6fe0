import Columnar.Proofs.Page.Handout
import Columnar.Proofs.Page.Spelling
import Columnar.Proofs.Stream.Ledger
import Columnar.Stream.Reader

/-!
# Reading a stream to its end

Reading row after row into one row comes to a list of rows, and then to the end of
the stream or to a failure.  A reader that stands between two pages is at the start
of the bytes that are left, so what is still to come is a matter of these bytes
alone: if they open with the frame of a page that is accepted, it is the rows of the
page and what comes after the frame.

## Main definitions

* `Reader.drain` — the rows that are still to come, and how they end.
* `Reader.Stands`, `Reader.Between` — a reader in a stream, and between two pages.

## Main results

* `Reader.drain_page` — a page in hand gives its rows, whatever row is read into.
* `Reader.drain_frame` — so does the frame of a page.
* `Reader.drain_frames` — and the frames of several pages.
-/

namespace Columnar

/-! ### Sources of given bytes -/

namespace Source

/-- A number is taken off the front of a source, whatever the source says at its end. -/
theorem number_of_encode {n : Nat} (hn : n < 2 ^ 64) {src : Source} {rest : List UInt8}
    (h : src.bytes = Leb128.encode n ++ rest) : src.number = (.ok (some n), { src with bytes := rest }) := by
  rw [number_eq_scan, h, Leb128.scan_encode hn]

theorem number_encode {n : Nat} (hn : n < 2 ^ 64) (rest : List UInt8) :
    (ofBytes (Leb128.encode n ++ rest)).number = (.ok (some n), ofBytes rest) := number_of_encode hn rfl

/-- So are as many bytes as are asked for. -/
theorem read_of_append {src : Source} {bs rest : List UInt8} (h : src.bytes = bs ++ rest) :
    src.read bs.length = (.complete bs, { src with bytes := rest }) := by
  rw [read, if_pos (by simp [h]), h, List.take_left', List.drop_left'] <;> rfl

theorem read_append (bs rest : List UInt8) :
    (ofBytes (bs ++ rest)).read bs.length = (.complete bs, ofBytes rest) := read_of_append rfl

theorem read_of_short {bs : List UInt8} {n : Nat} (h : bs.length < n) :
    (ofBytes bs).read n = (.ended, ofBytes []) := by
  have hshort : ¬ n ≤ (ofBytes bs).bytes.length := Nat.not_le.mpr h
  rw [read, if_neg hshort]
  rfl

end Source

namespace Row

/-- A row that rows of a schema can be read into: it is of the schema, or of one that is as wide and
has its fingerprint. -/
structure Suits (row : Row) (s : Schema) : Prop where
  width : row.width = s.width
  fingerprint : row.schema.fingerprint = s.fingerprint

theorem suits_iff {row : Row} {s : Schema} :
    row.Suits s ↔ row.width = s.width ∧ row.schema.fingerprint = s.fingerprint :=
  ⟨fun h => ⟨h.width, h.fingerprint⟩, fun h => ⟨h.1, h.2⟩⟩

instance (row : Row) (s : Schema) : Decidable (row.Suits s) := decidable_of_iff _ suits_iff.symm

theorem suits_of_schema {row : Row} {s : Schema} (h : row.schema = s) : row.Suits s :=
  h ▸ ⟨row.slots_length, rfl⟩

end Row

namespace Reader

/-! ### Reading goes on for finitely many rows -/

theorem seek_of_remaining {r : Reader} (h : r.feed.remaining ≠ 0) :
    r.seek = (.ok true, { r with tally.rows := r.tally.rows + 1 }) := by
  rw [seek, if_pos h]

theorem seek_of_finished {r : Reader} (h : r.feed.remaining = 0) (hf : r.finished = true) :
    r.seek = (.ok false, r) := by
  rw [seek, if_neg (not_not_intro h), if_pos hf]

/-- The reader with a page that was loaded. -/
def paged (r : Reader) (feed : Feed) (source : Source) : Reader :=
  { r with
    feed, source
    tally.pages := r.tally.pages + 1
    tally.bytes := r.tally.bytes + frameLength feed.pageLength }

/-- Between two pages, looking for a row is loading the next page and looking further. -/
theorem seek_of_spent {r : Reader} (h : r.feed.remaining = 0) (hf : r.finished = false) :
    r.seek = match r.feed.load r.source with
      | (.error e, feed, source) => (.error e, { r with feed, source, poisoned := true })
      | (.ok false, feed, source) =>
        (.ok false, { r with
          feed, source
          finished := true
          tally.bytes := r.tally.bytes + if feed.terminated then 1 else 0 })
      | (.ok true, feed, source) => (r.paged feed source).seek := by
  rw [seek, if_neg (not_not_intro h), if_neg (Bool.eq_false_iff.mp hf)]
  split <;> next hload => rw [hload] <;> rfl

theorem seek_of_load_error {r : Reader} (h : r.feed.remaining = 0) (hf : r.finished = false)
    {e : Failure} {feed : Feed} {source : Source} (hload : r.feed.load r.source = (.error e, feed, source)) :
    r.seek = (.error e, { r with feed, source, poisoned := true }) := by
  rw [seek_of_spent h hf, hload]

theorem seek_of_load_end {r : Reader} (h : r.feed.remaining = 0) (hf : r.finished = false)
    {feed : Feed} {source : Source} (hload : r.feed.load r.source = (.ok false, feed, source)) :
    r.seek = (.ok false, { r with
      feed, source
      finished := true
      tally.bytes := r.tally.bytes + if feed.terminated then 1 else 0 }) := by
  rw [seek_of_spent h hf, hload]

theorem seek_of_load_page {r : Reader} (h : r.feed.remaining = 0) (hf : r.finished = false)
    {feed : Feed} {source : Source} (hload : r.feed.load r.source = (.ok true, feed, source)) :
    r.seek = (r.paged feed source).seek := by
  rw [seek_of_spent h hf, hload]

/-- A row is found in the page at hand, or further on in the source. -/
theorem seek_true {r r' : Reader} (h : r.seek = (.ok true, r')) : r'.feed.remaining ≠ 0 ∧
    (r'.feed = r.feed ∧ r'.source = r.source ∨ r'.source.bytes.length < r.source.bytes.length) := by
  induction hn : r.source.bytes.length using Nat.strong_induction_on generalizing r with
  | _ n ih =>
    subst hn
    -- either the page at hand has a row, or a page is loaded and the source is shorter
    by_cases hrem : r.feed.remaining ≠ 0
    · rw [seek_of_remaining hrem] at h
      cases h
      exact ⟨hrem, Or.inl ⟨rfl, rfl⟩⟩
    have hrem := Decidable.not_not.mp hrem
    cases hf : r.finished with
    | true =>
      rw [seek_of_finished hrem hf] at h
      cases h
    | false =>
      rcases hload : r.feed.load r.source with ⟨e | b, feed, source⟩
      · rw [seek_of_load_error hrem hf hload] at h
        cases h
      · cases b with
        | false =>
          rw [seek_of_load_end hrem hf hload] at h
          cases h
        | true =>
          rw [seek_of_load_page hrem hf hload] at h
          have hlt := Feed.length_lt_of_load hload
          obtain ⟨hrem', hsame | hless⟩ := ih _ hlt h rfl
          · exact ⟨hrem', Or.inr (hsame.2 ▸ hlt)⟩
          · exact ⟨hrem', Or.inr (Nat.lt_trans hless hlt)⟩

/-- Each row that is read takes a row of the page at hand away, or bytes of the source. -/
theorem readRow_true {r r' : Reader} {row row' : Row} (h : r.readRow row = (.ok true, r', row')) :
    r'.source.bytes.length < r.source.bytes.length ∨
      r'.source.bytes.length = r.source.bytes.length ∧ r'.feed.remaining < r.feed.remaining := by
  unfold readRow at h
  split at h
  · cases h
  · split at h
    · cases h
    · cases h
    · next found hadvance =>
      have hseek : r.seek = (.ok true, found) := by
        unfold advance at hadvance
        split at hadvance
        · cases hadvance
        · exact hadvance
      obtain ⟨hrem, hfound⟩ := seek_true hseek
      have hlt : found.feed.next < found.feed.rows := Nat.lt_of_sub_ne_zero hrem
      obtain ⟨-, hfeed⟩ := Feed.readRow_of_lt hlt row
      split at h
      · next more feed new hread =>
        cases h
        rw [hread] at hfeed
        have hfeed : feed = found.feed.advanced := hfeed
        rcases hfound with ⟨hsame, hsource⟩ | hless
        · refine Or.inr ⟨congrArg (fun s => s.bytes.length) hsource, ?_⟩
          show feed.remaining < r.feed.remaining
          rw [hfeed, ← hsame, ← Feed.remaining_advanced hlt]
          exact Nat.lt_succ_self _
        · exact Or.inl hless
      · cases h

/-- The rows that are still to come, read one after the other into one row. -/
def drain (r : Reader) (row : Row) : Outcome :=
  match _h : r.readRow row with
  | (.error e, _, _) => .failed e
  | (.ok false, _, _) => .done
  | (.ok true, r, row) => (drain r row).after [row.slots]
termination_by (r.source.bytes.length, r.feed.remaining)
decreasing_by
  rcases readRow_true _h with hless | ⟨hsame, hless⟩
  · exact Prod.Lex.left _ _ hless
  · rw [Prod.lex_def]
    exact Or.inr ⟨hsame, hless⟩

theorem drain_def (r : Reader) (row : Row) :
    r.drain row = match r.readRow row with
      | (.error e, _, _) => .failed e
      | (.ok false, _, _) => .done
      | (.ok true, r, row) => (r.drain row).after [row.slots] := by
  rw [drain]
  split <;> next hread => rw [hread]

theorem drain_of_error {r r' : Reader} {row row' : Row} {e : Failure}
    (h : r.readRow row = (.error e, r', row')) : r.drain row = .failed e := by
  rw [drain_def, h]

theorem drain_of_end {r r' : Reader} {row row' : Row} (h : r.readRow row = (.ok false, r', row')) :
    r.drain row = .done := by
  rw [drain_def, h]

theorem drain_of_row {r r' : Reader} {row row' : Row} (h : r.readRow row = (.ok true, r', row')) :
    r.drain row = (r'.drain row').after [row'.slots] := by
  rw [drain_def, h]

/-- What comes depends on a reader only through its next row. -/
theorem drain_congr {r r' : Reader} {row : Row} (h : r.readRow row = r'.readRow row) :
    r.drain row = r'.drain row := by
  rw [drain_def, drain_def r', h]

/-! ### What reading a row comes to -/

theorem accepts_eq_ok_iff {r : Reader} {row : Row} : r.accepts row = .ok () ↔ row.Suits r.schema := by
  unfold accepts
  by_cases hwidth : row.width = r.schema.width
  · by_cases hfingerprint : row.schema.fingerprint = r.schema.fingerprint
    · simp [hwidth, hfingerprint, Row.suits_iff]
    · simp [hwidth, hfingerprint, Row.suits_iff]
  · simp [hwidth, Row.suits_iff]

theorem advance_eq_seek {r : Reader} (h : r.poisoned = false) : r.advance = r.seek := by
  rw [advance, h]
  rfl

theorem readRow_of_advance_error {r r' : Reader} {row : Row} {e : Failure} (hrow : row.Suits r.schema)
    (h : r.advance = (.error e, r')) : r.readRow row = (.error e, r', row) := by
  rw [readRow, accepts_eq_ok_iff.mpr hrow, h]

theorem readRow_of_advance_end {r r' : Reader} {row : Row} (hrow : row.Suits r.schema)
    (h : r.advance = (.ok false, r')) : r.readRow row = (.ok false, r', row) := by
  rw [readRow, accepts_eq_ok_iff.mpr hrow, h]

/-- A row that was found is read into the given row. -/
theorem readRow_of_advance_row {s : Schema} {r r' : Reader} {p : Page} {row : Row}
    (hrow : row.Suits r.schema) (h : r.advance = (.ok true, r')) (hready : r'.feed.Ready s)
    (hp : r'.feed.Holds p) (hlt : r'.feed.next < r'.feed.rows) (hwidth : row.width = s.width) :
    ∃ row', r.readRow row = (.ok true, { r' with feed := r'.feed.advanced }, row') ∧
      row'.schema = row.schema ∧ row'.slots = p.row s r'.feed.next := by
  obtain ⟨row', hread, hschema, hslots⟩ := Feed.readRow_eq hready hp hlt hwidth
  refine ⟨row', ?_, hschema, hslots⟩
  rw [readRow, accepts_eq_ok_iff.mpr hrow, h]
  simp only [hread]

/-! ### A reader in a stream -/

/-- A reader of a schema that may go on reading, with some bytes still in its source. -/
structure Stands (r : Reader) (s : Schema) (limit : Nat) (bytes : List UInt8) : Prop where
  ready : r.feed.Ready s
  limit : r.feed.limit = limit
  source : r.source = .ofBytes bytes
  finished : r.finished = false
  poisoned : r.poisoned = false

/-- All rows of the page at hand have been handed out. -/
structure Between (r : Reader) (s : Schema) (limit : Nat) (bytes : List UInt8) : Prop extends
    r.Stands s limit bytes where
  spent : r.feed.remaining = 0

variable {s : Schema} {layout : List (Kind × Storage)} {limit : Nat} {bytes : List UInt8} {r : Reader}
  {row : Row}

theorem Stands.suits (h : r.Stands s limit bytes) (hrow : row.Suits s) : row.Suits r.schema := by
  have hschema : r.schema = s := h.ready.schema
  rwa [hschema]

/-- A row of the page at hand is read. -/
theorem readRow_page (h : r.Stands s limit bytes) {p : Page} (hp : r.feed.Holds p)
    (hlt : r.feed.next < r.feed.rows) (hrow : row.Suits s) :
    ∃ r' row', r.readRow row = (.ok true, r', row') ∧ r'.Stands s limit bytes ∧
      r'.feed = r.feed.advanced ∧ row'.Suits s ∧ row'.slots = p.row s r.feed.next := by
  have hrem : r.feed.remaining ≠ 0 := Nat.sub_ne_zero_of_lt hlt
  have hadvance := (advance_eq_seek h.poisoned).trans (seek_of_remaining hrem)
  obtain ⟨row', hread, hschema, hslots⟩ :=
    readRow_of_advance_row (h.suits hrow) hadvance h.ready hp hlt hrow.width
  refine ⟨_, row', hread, ?_, rfl, ?_, hslots⟩
  · exact ⟨h.ready.advanced, h.limit, h.source, h.finished, h.poisoned⟩
  · exact ⟨by rw [Row.width, hslots, Page.length_row], hschema ▸ hrow.fingerprint⟩

/-- **A page at hand gives its rows**, and then comes what comes after it. -/
theorem drain_page (h : r.Stands s limit bytes) {p : Page} (hp : r.feed.Holds p)
    {o : Outcome} (ho : ∀ r' : Reader, r'.Between s limit bytes → ∀ row' : Row, row'.Suits s →
      r'.drain row' = o) (hrow : row.Suits s) :
    r.drain row = o.after ((p.allRows s).drop r.feed.next) := by
  induction hn : r.feed.remaining generalizing r row with
  | zero =>
    have hle : r.feed.rows ≤ r.feed.next := Nat.sub_eq_zero_iff_le.mp hn
    rw [Page.drop_allRows_of_le (hp.rows ▸ hle), Outcome.after_nil]
    exact ho r ⟨h, hn⟩ row hrow
  | succ n ih =>
    -- one row is read, which is the first of the rows that are left
    have hlt : r.feed.next < r.feed.rows := Nat.lt_of_sub_eq_succ hn
    obtain ⟨r', row', hread, hstands, hfeed, hsuits, hslots⟩ := readRow_page h hp hlt hrow
    have hp' : r'.feed.Holds p := hfeed ▸ hp.advanced
    have hn' : r'.feed.remaining = n := by
      rw [hfeed]
      exact Nat.succ.inj ((Feed.remaining_advanced hlt).trans hn)
    have hnext : r'.feed.next = r.feed.next + 1 := by rw [hfeed]; rfl
    have hlt' : r.feed.next < p.rows := hp.rows ▸ hlt
    rw [drain_of_row hread, ih hstands hp' hsuits hn', Outcome.after_after, hnext,
      Page.drop_allRows hlt', hslots]
    rfl

/-- Where there is no page at hand, what comes is what the next load brings. -/
theorem readRow_eq_of_seek (h : r.Between s limit bytes) {r' : Reader} {bytes' : List UInt8}
    (h' : r'.Stands s limit bytes')
    (hseek : r.seek = r'.seek) (hrow : row.Suits s) : r.readRow row = r'.readRow row := by
  rw [readRow, readRow, accepts_eq_ok_iff.mpr (h.suits hrow), accepts_eq_ok_iff.mpr (h'.suits hrow),
    advance_eq_seek h.poisoned, advance_eq_seek h'.poisoned, hseek]

/-! ### Opening a stream -/

theorem check_ofFingerprint (f : UInt64) : (Header.ofFingerprint f).check f = .ok () := by
  simp [Header.check, Header.ofFingerprint]

theorem header_read (f : UInt64) (rest : List UInt8) :
    Header.read (.ofBytes ((Header.ofFingerprint f).toBytes ++ rest)) =
      (.ok (Header.ofFingerprint f), .ofBytes rest) := by
  have hlen := Header.length_toBytes_ofFingerprint f
  have hread : (Source.ofBytes ((Header.ofFingerprint f).toBytes ++ rest)).read Header.byteLength =
      (.complete (Header.ofFingerprint f).toBytes, .ofBytes rest) := by
    rw [← hlen, Source.read_append]
  rw [Header.read, hread]
  simp only [Header.ofBytes_toBytes]

/-- **A stream of the schema is opened**, and the reader then is before its first page. -/
theorem make_of_header (hs : s.Finalized) {settings : Settings} (hsettings : settings.check = .ok ())
    (rest : List UInt8) :
    ∃ r, make (.ofBytes ((Header.ofFingerprint s.fingerprint).toBytes ++ rest)) s settings = .ok r ∧
      r.Between s settings.maxPageBytes rest := by
  obtain ⟨feed, hfeed⟩ := Feed.exists_make hs settings.maxPageBytes
  obtain ⟨hready, hlimit, hrows, hnext⟩ := Feed.ready_make hfeed
  refine ⟨⟨.ofBytes rest, .ofFingerprint s.fingerprint, feed, false, false, none,
    ⟨0, 0, Header.byteLength⟩⟩, ?_,
    ⟨⟨hready, hlimit, rfl, rfl, rfl⟩, ?_⟩⟩
  · rw [make, hsettings, Schema.isResolved_of_finalized hs, header_read]
    simp only [bind, Except.bind, pure, Except.pure, check_ofFingerprint, hfeed]
    rfl
  · show feed.rows - feed.next = 0
    rw [hrows, hnext]

/-- A stream that ends within its header is not opened. -/
theorem make_of_short (hs : s.Finalized) {settings : Settings} (hsettings : settings.check = .ok ())
    {bytes : List UInt8} (hshort : bytes.length < Header.byteLength) :
    make (.ofBytes bytes) s settings = .error (.damaged .headerTruncated) := by
  have hread : Header.read (.ofBytes bytes) = (.error (.damaged .headerTruncated), .ofBytes []) := by
    rw [Header.read, Source.read_of_short hshort]
  rw [make, hsettings, Schema.isResolved_of_finalized hs, hread]
  rfl

end Reader

/-! ### Frames -/

namespace Feed

variable {s : Schema} {f : Feed}

/-- A load at the frame of a body within the limit decodes the body. -/
theorem load_of_frame {body : List UInt8} (hpos : body ≠ []) (hbuffer : body.length ≤ maxBuffer)
    (hlimit : body.length ≤ f.limit) {src : Source} {rest : List UInt8}
    (h : src.bytes = Writer.frame body ++ rest) :
    f.load src = ((f.decode body).1.map fun _ => true, (f.decode body).2, { src with bytes := rest }) := by
  have hlen := Nat.lt_of_le_of_lt hbuffer maxBuffer_lt
  have hne : body.length ≠ 0 := fun hzero => hpos (List.length_eq_zero_iff.mp hzero)
  obtain ⟨n, hn⟩ := Nat.exists_eq_succ_of_ne_zero hne
  rw [Writer.frame, List.append_assoc] at h
  rw [load, Source.number_of_encode hlen h]
  rw [hn] at hlimit hbuffer ⊢
  simp only [if_neg (Nat.not_lt.mpr hlimit), if_neg (Nat.not_lt.mpr hbuffer)]
  rw [← hn, Source.read_of_append rfl]

theorem load_frame {body : List UInt8} (hpos : body ≠ []) (hbuffer : body.length ≤ maxBuffer)
    (hlimit : body.length ≤ f.limit) (rest : List UInt8) :
    f.load (.ofBytes (Writer.frame body ++ rest)) =
      ((f.decode body).1.map fun _ => true, (f.decode body).2, .ofBytes rest) :=
  load_of_frame hpos hbuffer hlimit rfl

/-- A load at the frame of a body beyond the limit fails. -/
theorem load_of_frame_tooLong {body : List UInt8} (hlen : body.length < 2 ^ 64)
    (hlimit : f.limit < body.length) {src : Source} {rest : List UInt8}
    (h : src.bytes = Writer.frame body ++ rest) :
    f.load src = (.error (.damaged (.pageTooLong body.length f.limit)), f.cleared,
      { src with bytes := body ++ rest }) := by
  have hne : body.length ≠ 0 := Nat.ne_zero_of_lt hlimit
  obtain ⟨n, hn⟩ := Nat.exists_eq_succ_of_ne_zero hne
  rw [Writer.frame, List.append_assoc] at h
  rw [load, Source.number_of_encode hlen h]
  rw [hn] at hlimit ⊢
  simp only [if_pos hlimit]

theorem load_frame_tooLong {body : List UInt8} (hlen : body.length < 2 ^ 64)
    (hlimit : f.limit < body.length) (rest : List UInt8) :
    f.load (.ofBytes (Writer.frame body ++ rest)) =
      (.error (.damaged (.pageTooLong body.length f.limit)), f.cleared, .ofBytes (body ++ rest)) :=
  load_of_frame_tooLong hlen hlimit rfl

/-- At a zero byte there is no more page, whatever comes after it. -/
theorem load_mark (f : Feed) (extra : List UInt8) :
    f.load (.ofBytes (0 :: extra)) =
      (.ok false, { f.cleared with terminated := true }, .ofBytes extra) := by
  have hnumber := @Source.number_encode 0 (by decide) extra
  rw [Leb128.encode_of_lt (by decide)] at hnumber
  have hnumber : (Source.ofBytes (0 :: extra)).number = (.ok (some 0), .ofBytes extra) := hnumber
  rw [load, hnumber]
  rfl

/-- Nor is there one at the end of the source. -/
theorem load_nil (f : Feed) : f.load (.ofBytes []) = (.ok false, f.cleared, .ofBytes []) := rfl

end Feed

/-! ### Pages one after the other -/

namespace Page

/-- A page of some rows is one that a reader accepts: its body is within the limit, and so is the
number of its rows if there is no field to count them by. -/
def Within (s : Schema) (shapes : List Lane.Shape) (limit : Nat) (rows : List (List (Option Value))) :
    Prop :=
  (spell shapes rows).length ≤ limit ∧ (s.width = 0 → rows.length ≤ limit)

instance (s : Schema) (shapes : List Lane.Shape) (limit : Nat) (rows : List (List (Option Value))) :
    Decidable (Within s shapes limit rows) := inferInstanceAs (Decidable (_ ∧ _))

/-- What is wrong with a page that is not accepted. -/
def refusal (shapes : List Lane.Shape) (limit : Nat) (rows : List (List (Option Value))) : Damage :=
  if limit < (spell shapes rows).length then .pageTooLong (spell shapes rows).length limit
  else .tooManyRows rows.length limit

/-- Rows of a schema, in a page that a writer can have written. -/
structure Written (s : Schema) (shapes : List Lane.Shape) (rows : List (List (Option Value))) : Prop where
  admits : ∀ r ∈ rows, s.Admits r
  count : rows.length < 2 ^ 64
  length : (spell shapes rows).length < 2 ^ 63

theorem spell_ne_nil (shapes : List Lane.Shape) (rows : List (List (Option Value))) :
    spell shapes rows ≠ [] := by
  have hone := Leb128.one_le_length_encode rows.length
  intro hnil
  have hlen := congrArg List.length hnil
  rw [spell, List.length_append, List.length_append, List.length_nil] at hlen
  omega

end Page

namespace Reader

variable {s : Schema} {limit : Nat} {bytes : List UInt8} {r : Reader} {row : Row}

/-- A load that fails is what comes. -/
theorem drain_of_load_error (h : r.Between s limit bytes) (hrow : row.Suits s) {e : Failure} {feed : Feed}
    {source : Source} (hload : r.feed.load (.ofBytes bytes) = (.error e, feed, source)) :
    r.drain row = .failed e := by
  rw [← h.source] at hload
  have hadvance := (advance_eq_seek h.poisoned).trans (seek_of_load_error h.spent h.finished hload)
  exact drain_of_error (readRow_of_advance_error (h.suits hrow) hadvance)

/-- Where there is no page to load, nothing comes. -/
theorem drain_of_load_end (h : r.Between s limit bytes) (hrow : row.Suits s) {feed : Feed}
    {source : Source} (hload : r.feed.load (.ofBytes bytes) = (.ok false, feed, source)) :
    r.drain row = .done := by
  rw [← h.source] at hload
  have hadvance := (advance_eq_seek h.poisoned).trans (seek_of_load_end h.spent h.finished hload)
  exact drain_of_end (readRow_of_advance_end (h.suits hrow) hadvance)

theorem drain_mark {extra : List UInt8} (h : r.Between s limit (0 :: extra)) (hrow : row.Suits s) :
    r.drain row = .done := drain_of_load_end h hrow (r.feed.load_mark extra)

theorem drain_nil (h : r.Between s limit []) (hrow : row.Suits s) : r.drain row = .done :=
  drain_of_load_end h hrow r.feed.load_nil

variable {layout : List (Kind × Storage)}
  {pages : List (List (List (Option Value)))} {rows : List (List (Option Value))} {rest : List UInt8}

/-- Decoding under the layout of the feed is decoding under that of the schema. -/
theorem Stands.decode_eq (h : r.Stands s limit bytes) (hl : s.layout = .ok layout) (body : List UInt8) :
    Page.decode r.feed.layout r.feed.limit body = Page.decode layout limit body := by
  rw [h.limit, Except.ok.inj (h.ready.layout.symm.trans hl)]

/-- **The frame of a page that is accepted gives the rows of the page**, and then comes what comes
after the frame. -/
theorem drain_frame (hl : s.layout = .ok layout) {body : List UInt8}
    (h : r.Between s limit (Writer.frame body ++ rest)) (hpos : body ≠ [])
    (hbuffer : body.length ≤ Feed.maxBuffer) (hlimit : body.length ≤ limit) {p : Page}
    (hp : Page.decode layout limit body = .ok p) {o : Outcome} (ho : ∀ r' : Reader, r'.Between s limit rest → ∀ row' : Row, row'.Suits s →
      r'.drain row' = o) (hrow : row.Suits s) :
    r.drain row = o.after (p.allRows s) := by
  obtain ⟨feed, hdecode, hready, hsame, -, hholds, hnext⟩ :=
    Feed.decode_of_ok h.ready ((h.decode_eq hl body).trans hp)
  have hload := Feed.load_frame hpos hbuffer (h.limit.symm ▸ hlimit) rest
  rw [← h.source, hdecode] at hload
  have hseek := seek_of_load_page h.spent h.finished hload
  have hstands : (r.paged feed (.ofBytes rest)).Stands s limit rest :=
    ⟨hready, hsame.trans h.limit, rfl, h.finished, h.poisoned⟩
  have hfeed : (r.paged feed (.ofBytes rest)).feed = feed := rfl
  -- asking the reader for a row is asking it after the page was loaded
  rw [drain_congr (readRow_eq_of_seek h hstands hseek hrow),
    drain_page hstands (hfeed.symm ▸ hholds) ho hrow, hfeed, hnext, List.drop_zero]

/-- The frame of a page that is refused gives no row. -/
theorem drain_frame_refused (hl : s.layout = .ok layout) {body : List UInt8}
    (h : r.Between s limit (Writer.frame body ++ rest)) (hpos : body ≠ [])
    (hbuffer : body.length ≤ Feed.maxBuffer) (hlimit : body.length ≤ limit) {e : Failure}
    (hp : Page.decode layout limit body = .error e) (hrow : row.Suits s) : r.drain row = .failed e := by
  obtain ⟨feed, hdecode, -⟩ := Feed.decode_of_error h.ready ((h.decode_eq hl body).trans hp)
  have hload := Feed.load_frame hpos hbuffer (h.limit.symm ▸ hlimit) rest
  rw [hdecode] at hload
  exact drain_of_load_error h hrow hload

/-- The frame of the page of some rows gives these rows, if the page is within the limit. -/
theorem drain_frame_within (hs : s.Finalized) (hl : s.layout = .ok layout)
    (h : r.Between s limit (Writer.frame (Page.spell (s.shapes layout) rows) ++ rest))
    (hwritten : Page.Written s (s.shapes layout) rows)
    (hwithin : Page.Within s (s.shapes layout) limit rows) {o : Outcome}
    (ho : ∀ r' : Reader, r'.Between s limit rest → ∀ row' : Row, row'.Suits s → r'.drain row' = o)
    (hrow : row.Suits s) : r.drain row = o.after (rows.map s.deliver) := by
  obtain ⟨p, hp, hspells⟩ :=
    Page.decode_spell hs hl hwritten.admits hwritten.count hwritten.length hwithin.2
  have hall := hspells.allRows hl hl fun r hr => (hwritten.admits r hr).length
  have hbuffer := Nat.le_of_lt_succ hwritten.length
  rw [drain_frame hl h (Page.spell_ne_nil _ _) hbuffer hwithin.1 hp ho hrow, hall]

/-- And if it is not, reading fails. -/
theorem drain_frame_beyond (hl : s.layout = .ok layout)
    (h : r.Between s limit (Writer.frame (Page.spell (s.shapes layout) rows) ++ rest))
    (hwritten : Page.Written s (s.shapes layout) rows)
    (hnot : ¬ Page.Within s (s.shapes layout) limit rows) (hrow : row.Suits s) :
    r.drain row = .failed (.damaged (Page.refusal (s.shapes layout) limit rows)) := by
  have hlen := Nat.lt_trans hwritten.length (by decide : 2 ^ 63 < 2 ^ 64)
  by_cases hlimit : limit < (Page.spell (s.shapes layout) rows).length
  · have hload := Feed.load_frame_tooLong hlen (h.limit.symm ▸ hlimit : r.feed.limit < _) rest
    rw [h.limit] at hload
    rw [Page.refusal, if_pos hlimit]
    exact drain_of_load_error h hrow hload
  · -- the body is short enough, so it is rows without any field that are too many
    have hmany : s.width = 0 ∧ limit < rows.length := by
      by_contra hfew
      exact hnot ⟨Nat.not_lt.mp hlimit, fun hzero => Nat.not_lt.mp fun hlt => hfew ⟨hzero, hlt⟩⟩
    have hp := Page.decode_spell_tooManyRows hl hmany.1 hwritten.count hmany.2
    rw [Page.refusal, if_neg hlimit]
    exact drain_frame_refused hl h (Page.spell_ne_nil _ _) (Nat.le_of_lt_succ hwritten.length)
      (Nat.not_lt.mp hlimit) hp hrow

/-- **The frames of pages that are within the limit give the rows of the pages**, and then comes what
comes after the frames. -/
theorem drain_frames (hs : s.Finalized) (hl : s.layout = .ok layout)
    (h : r.Between s limit (Writer.frames (s.shapes layout) pages ++ rest))
    (hpages : ∀ p ∈ pages, Page.Written s (s.shapes layout) p ∧ Page.Within s (s.shapes layout) limit p)
    {o : Outcome} (ho : ∀ r' : Reader, r'.Between s limit rest → ∀ row' : Row, row'.Suits s →
      r'.drain row' = o) (hrow : row.Suits s) :
    r.drain row = o.after (pages.flatten.map s.deliver) := by
  induction pages generalizing r row with
  | nil => exact ho r h row hrow
  | cons rows pages ih =>
    obtain ⟨⟨hwritten, hwithin⟩, hrest⟩ := List.forall_mem_cons.mp hpages
    rw [Writer.frames, List.flatMap_cons, List.append_assoc] at h
    rw [drain_frame_within hs hl h hwritten hwithin (fun r' h' row' hrow' => ih h' hrest hrow') hrow,
      Outcome.after_after, List.flatten_cons, List.map_append]

end Reader

/-! ### The stream of a writer that was closed -/

namespace Writer

variable {s : Schema} {shapes : List Lane.Shape} {layout : List (Kind × Storage)} {limit : Nat}
  {w : Writer Memory} {l : Ledger} {pages : List (List (List (Option Value)))}
  {rows : List (List (Option Value))}

theorem length_spell_le (h : rows ∈ pages) :
    (Page.spell shapes rows).length ≤ (frames shapes pages).length := by
  obtain ⟨before, after, rfl⟩ := List.append_of_mem h
  simp only [frames, List.flatMap_append, List.flatMap_cons, List.length_append, frame]
  omega

variable [TextHash]

theorem Tracks.sink_of_closed (h : w.Tracks s shapes limit l) (hclosed : w.closed = true) :
    w.sink.written = spell s shapes l.pages ++ [0] := by
  have hheader : w.headerWritten = true := by
    by_contra hnot
    obtain ⟨hopen, -⟩ := h.unwritten (Bool.eq_false_iff.mpr hnot)
    rw [hclosed] at hopen
    cases hopen
  rw [h.sink hheader, hclosed]
  rfl

/-- The pages in the ledger are well-formed ones. -/
theorem Tracks.written (hs : s.Finalized) (hl : s.layout = .ok layout)
    (h : w.Tracks s (s.shapes layout) limit l) (hclosed : w.closed = true) (hlimit : limit < 2 ^ 64)
    (hlen : w.sink.written.length < 2 ^ 63) :
    ∀ p ∈ l.pages, Page.Written s (s.shapes layout) p := by
  intro p hp
  refine ⟨?_, Nat.lt_of_le_of_lt (h.pages p hp).2 hlimit, ?_⟩
  · intro r hr
    have hmem : r ∈ l.rows := List.mem_append_left _ (List.mem_flatten.mpr ⟨p, hp, hr⟩)
    exact (Draft.takes_iff_admits hs hl).mp (h.typed r hmem)
  · have hle : (Page.spell (s.shapes layout) p).length ≤ _ := length_spell_le hp
    rw [h.sink_of_closed hclosed, List.length_append, spell, List.length_append] at hlen
    omega

end Writer
end Columnar
