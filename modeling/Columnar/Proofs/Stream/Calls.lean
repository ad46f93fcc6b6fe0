import Columnar.Proofs.Stream.Seeking

/-!
# Any calls on a reader

The next row can be asked for in four ways, and a program may mix them as it likes.
They differ in what they make of the row, but not in what becomes of the reader: that
is settled by the one search for a row that all of them start with.

So the replies of a reader to any calls are some rows, and then perhaps the end of the
stream for good, or one failure and from then on nothing but the complaint that the
reader is poisoned.  A call that brings a row of another schema does not count: it is
refused and changes nothing.

## Main definitions

* `ReaderCall`, `Reply` — asking for a row, and what comes of it.
* `ReaderCall.Delivers`, `ReaderCall.Ends` — what the caller gets to see.
* `Reader.Settles` — what a reader guarantees over any calls.

## Main results

* `Reader.call_of_error`, `Reader.call_of_end`, `Reader.call_of_row` — a call does what
  its search comes to.
* `Reader.Sound.call` — every call keeps a reader in good order.
* `Reader.settles_run` — how the replies to any calls go.
-/

namespace Columnar

/-- A call that asks a reader for the next row. -/
inductive ReaderCall : Type 1 where
  /-- Into a given row. -/
  | row (into : Row)
  /-- As a view. -/
  | view
  /-- As a new row. -/
  | next
  /-- Into a record. -/
  | record {α : Type} (b : Binding α) (into : α)

/-- What comes of a call. -/
inductive Reply where
  | row
  | ended
  | failed (e : Failure)
deriving DecidableEq, Repr

/-- The reply to a call that says whether there was a row. -/
def Reply.ofFound : Except Failure Bool → Reply
  | .ok true => .row
  | .ok false => .ended
  | .error e => .failed e

namespace Row

@[simp] theorem schema_reuse (kept : Option Row) (s : Schema) : (reuse kept s).schema = s := by
  unfold reuse
  split
  · split
    · next h => exact h
    · rfl
  · rfl

end Row

namespace ReaderCall

/-- The row that a call brings along. -/
def target? : ReaderCall → Option Row
  | row into => some into
  | record b _ => some (Row.blank b.schema)
  | view | next => none

/-- Rows of a schema can be read by the call. -/
def Suits (c : ReaderCall) (s : Schema) : Prop := ∀ row ∈ c.target?, row.Suits s

instance (c : ReaderCall) (s : Schema) : Decidable (c.Suits s) :=
  inferInstanceAs (Decidable (∀ row ∈ c.target?, row.Suits s))

end ReaderCall

/-- A view shows some cells. -/
structure View.Shows (v : View) (cells : List (Option Value)) : Prop where
  width : v.width = cells.length
  get : ∀ (i : Nat) (cell : Option Value), cells[i]? = some cell → v.get i = .ok cell

namespace Reader

/-- The reply to a call, and the reader after it. -/
def call (r : Reader) : ReaderCall → Reply × Reader
  | .row into =>
    let (result, r, _) := r.readRow into
    (.ofFound result, r)
  | .view =>
    let (result, r) := r.readView
    (.ofFound (result.map Option.isSome), r)
  | .next =>
    let (result, r) := r.nextRow
    (.ofFound (result.map Option.isSome), r)
  | .record b into =>
    let (result, r, _) := r.readRecord b into
    (.ofFound result, r)

/-- The reader after some calls. -/
def run (r : Reader) (calls : List ReaderCall) : Reader := calls.foldl (fun r c => (r.call c).2) r

/-- The replies to the calls that suit the reader's schema. -/
def replies (r : Reader) : List ReaderCall → List Reply
  | [] => []
  | c :: calls =>
    if c.Suits r.schema then (r.call c).1 :: (r.call c).2.replies calls else (r.call c).2.replies calls

end Reader

namespace ReaderCall

/-- The call gives a row of these cells. -/
def Delivers (r : Reader) (cells : List (Option Value)) : ReaderCall → Prop
  | row into => ∃ new, (r.readRow into).1 = .ok true ∧ (r.readRow into).2.2 = new ∧
      new.schema = into.schema ∧ new.slots = cells
  | view => ∃ v, r.readView.1 = .ok (some v) ∧ v.Shows cells
  | next => ∃ new, r.nextRow.1 = .ok (some new) ∧ new.schema = r.schema ∧ new.slots = cells
  | record b into => ∃ new, (r.readRecord b into).1 = .ok true ∧
      (r.readRecord b into).2.2 = b.apply new into ∧ new.schema = b.schema ∧ new.slots = cells

/-- The call says that there is no more row, and leaves what it was to fill. -/
def Ends (r : Reader) : ReaderCall → Prop
  | row into => (r.readRow into).1 = .ok false ∧ (r.readRow into).2.2 = into
  | view => r.readView.1 = .ok none
  | next => r.nextRow.1 = .ok none
  | record b into => (r.readRecord b into).1 = .ok false ∧ (r.readRecord b into).2.2 = into

end ReaderCall

namespace Reader

variable {s : Schema} {limit : Nat} {fault : Option IoFault} {r r' : Reader} {c : ReaderCall}
  {calls : List ReaderCall}

/-! ### A call does what its search comes to -/

/-- Whether a row is accepted depends on its schema alone, -/
theorem accepts_congr (r : Reader) {row row' : Row} (h : row.schema = row'.schema) :
    r.accepts row = r.accepts row' := by
  have hwidth : row.width = row'.width := by
    rw [Row.width, Row.width, row.slots_length, row'.slots_length, h]
  rw [accepts, accepts, hwidth, h]

/-- so one kept from earlier is as good as a blank one. -/
theorem accepts_reuse (r : Reader) (kept : Option Row) (t : Schema) :
    r.accepts (Row.reuse kept t) = r.accepts (Row.blank t) :=
  r.accepts_congr (Row.schema_reuse kept t)

theorem suits_reuse {α : Type} {b : Binding α} {into : α}
    (h : (ReaderCall.record b into).Suits r.schema) (kept : Option Row) :
    (Row.reuse kept b.schema).Suits r.schema := by
  rw [← accepts_eq_ok_iff, accepts_reuse]
  exact accepts_eq_ok_iff.mpr (h (Row.blank b.schema) rfl)

theorem call_of_error (hc : c.Suits r.schema) {e : Failure} (h : r.advance = (.error e, r')) :
    ∃ kept, r.call c = (.failed e, { r' with scratch := kept }) := by
  cases c with
  | row into =>
    refine ⟨r'.scratch, ?_⟩
    rw [call, readRow_of_advance_error (hc into rfl) h]
    rfl
  | view =>
    refine ⟨r'.scratch, ?_⟩
    rw [call, readView, h]
    rfl
  | next =>
    refine ⟨r'.scratch, ?_⟩
    rw [call, nextRow, readView, h]
    rfl
  | record b into =>
    refine ⟨some (Row.reuse r.scratch b.schema), ?_⟩
    rw [call, readRecord, readRow_of_advance_error (suits_reuse hc r.scratch) h]
    rfl

theorem call_of_end (hc : c.Suits r.schema) (h : r.advance = (.ok false, r')) :
    c.Ends r ∧ ∃ kept, r.call c = (.ended, { r' with scratch := kept }) := by
  cases c with
  | row into =>
    have hread := readRow_of_advance_end (hc into rfl) h
    rw [ReaderCall.Ends, call, hread]
    exact ⟨⟨rfl, rfl⟩, r'.scratch, rfl⟩
  | view =>
    have hread : r.readView = (.ok none, r') := by rw [readView, h]
    rw [ReaderCall.Ends, call, hread]
    exact ⟨rfl, r'.scratch, rfl⟩
  | next =>
    have hread : r.nextRow = (.ok none, r') := by rw [nextRow, readView, h]
    rw [ReaderCall.Ends, call, hread]
    exact ⟨rfl, r'.scratch, rfl⟩
  | record b into =>
    have hread := readRow_of_advance_end (suits_reuse hc r.scratch) h
    rw [ReaderCall.Ends, call, readRecord, hread]
    exact ⟨⟨rfl, rfl⟩, _, rfl⟩

/-- **All four ways to ask for a row give the same one**, and leave the same reader. -/
theorem call_of_row (hc : c.Suits r.schema) (h : r.advance = (.ok true, r')) (hr : r.schema = s)
    (hready : r'.feed.Ready s) {p : Page} (hp : r'.feed.Holds p) (hlt : r'.feed.next < r'.feed.rows) :
    c.Delivers r (p.row s r'.feed.next) ∧
      ∃ kept, r.call c = (.row, { r' with feed := r'.feed.advanced, scratch := kept }) := by
  have hview : r.readView = (.ok (some (r'.feed.view r'.feed.next)),
      { r' with feed := r'.feed.advanced }) := by
    rw [readView, h]
    simp only [Feed.nextView_of_lt hlt]
  have hvieweq : r'.feed.view r'.feed.next = ⟨s, r'.feed.body, r'.feed.tables, r'.feed.next⟩ := by
    rw [Feed.view, hready.schema]
  have hlt' : r'.feed.next < p.rows := hp.rows ▸ hlt
  cases c with
  | row into =>
    have hsuits : into.Suits r.schema := hc into rfl
    obtain ⟨new, hread, hschema, hslots⟩ :=
      readRow_of_advance_row hsuits h hready hp hlt (hr ▸ hsuits.width)
    rw [ReaderCall.Delivers, call, hread]
    exact ⟨⟨new, rfl, rfl, hschema, hslots⟩, r'.scratch, rfl⟩
  | view =>
    rw [ReaderCall.Delivers, call, hview, hvieweq]
    refine ⟨⟨_, rfl, ?_, ?_⟩, r'.scratch, rfl⟩
    · rw [Page.length_row, ← Schema.length_layout hready.layout, ← hready.tables.length_eq]
      rfl
    · intro i cell hcell
      have hi : i < s.fields.length := by
        have hlt := (List.getElem?_eq_some_iff.mp hcell).1
        rwa [Page.length_row] at hlt
      rw [View.get_eq hp.shows hready.layout _ (List.getElem?_eq_getElem hi)]
      exact View.row_getElem? hp.shows hready.layout hlt' hcell
  | next =>
    obtain ⟨new, htoRow, hschema, hslots⟩ := View.toRow_eq hp.shows hready.layout hlt'
    have hread : r.nextRow = (.ok (some new), { r' with feed := r'.feed.advanced }) := by
      rw [nextRow, hview, hvieweq]
      simp only [htoRow]
      rfl
    rw [ReaderCall.Delivers, call, hread]
    exact ⟨⟨new, rfl, hschema.trans hr.symm, hslots⟩, r'.scratch, rfl⟩
  | record b into =>
    have hsuits := suits_reuse hc r.scratch
    obtain ⟨new, hread, hschema, hslots⟩ :=
      readRow_of_advance_row hsuits h hready hp hlt (hr ▸ hsuits.width)
    rw [ReaderCall.Delivers, call, readRecord, hread]
    exact ⟨⟨new, rfl, rfl, hschema.trans (Row.schema_reuse _ _), hslots⟩, some new, rfl⟩

/-- A call whose row does not suit is refused, and the reader stays as it is. -/
theorem call_of_not_suits (hc : ¬ c.Suits r.schema) :
    ∃ row e kept, c.target? = some row ∧ r.accepts row = .error e ∧
      r.call c = (.failed e, { r with scratch := kept }) := by
  have hrow : ∃ row, c.target? = some row ∧ ¬ row.Suits r.schema := by
    simpa [ReaderCall.Suits] using hc
  obtain ⟨row, htarget, hnot⟩ := hrow
  cases haccepts : r.accepts row with
  | ok u => exact absurd (accepts_eq_ok_iff.mp haccepts) hnot
  | error e =>
    cases c with
    | row into =>
      cases htarget
      refine ⟨_, e, r.scratch, rfl, haccepts, ?_⟩
      rw [call, readRow, haccepts]
      rfl
    | view => cases htarget
    | next => cases htarget
    | record b into =>
      cases htarget
      refine ⟨_, e, some (Row.reuse r.scratch b.schema), rfl, haccepts, ?_⟩
      rw [call, readRecord, readRow, accepts_reuse, haccepts]
      rfl

/-! ### One call -/

/-- A reader that hands out no more rows: it has come to the end of its stream, or it is poisoned.
All it has left is one reply. -/
inductive Stuck (r : Reader) : Reply → Prop where
  | exhausted (finished : r.finished = true) (spent : r.feed.remaining = 0)
      (poisoned : r.poisoned = false) : Stuck r .ended
  | poisoned (poisoned : r.poisoned = true) : Stuck r (.failed (.misuse .readerPoisoned))

theorem Stuck.scratch {reply : Reply} (h : r.Stuck reply) (kept : Option Row) :
    Stuck { r with scratch := kept } reply := by
  cases h with
  | exhausted finished spent poisoned => exact .exhausted finished spent poisoned
  | poisoned poisoned => exact .poisoned poisoned

theorem Stuck.call {reply : Reply} (h : r.Stuck reply) (hc : c.Suits r.schema) :
    ∃ kept, r.call c = (reply, { r with scratch := kept }) := by
  cases h with
  | exhausted finished spent poisoned =>
    exact (call_of_end hc ((advance_eq_seek poisoned).trans (seek_of_finished spent finished))).2
  | poisoned poisoned => exact call_of_error hc (by rw [advance, poisoned]; rfl)

/-- The reader after it has handed out what a search found. -/
def handed (r : Reader) : Except Failure Bool → Reader
  | .ok true => { r with feed := r.feed.advanced }
  | .ok false | .error _ => r

/-- **A call is a search, and handing out what it found.** -/
theorem call_of_seek (h : r.Sound s limit fault) (hp : r.poisoned = false) (hc : c.Suits s) :
    ∃ kept, r.call c = (.ofFound r.seek.1, { r.seek.2.handed r.seek.1 with scratch := kept }) := by
  have hadvance : r.advance = r.seek := advance_eq_seek hp
  rw [← h.schema] at hc
  generalize hfound : r.seek = found at hadvance
  have hsought := sought_seek h
  rw [hfound] at hsought
  cases hsought with
  | row sound left =>
    obtain ⟨p, hpage⟩ := sound.page (Nat.zero_lt_of_lt left)
    exact (call_of_row hc hadvance h.schema sound.ready hpage left).2
  | ended => exact (call_of_end hc hadvance).2
  | failed => exact call_of_error hc hadvance

/-- What a call to a reader in good order comes to. -/
inductive Called (s : Schema) (limit : Nat) (fault : Option IoFault) (r : Reader) :
    Reply × Reader → Prop where
  | row {r' : Reader} (sound : r'.Sound s limit fault) (poisoned : r'.poisoned = false)
      (rows : r'.tally.rows = r.tally.rows + 1) : Called s limit fault r (.row, r')
  | ended {r' : Reader} (schema : r'.schema = s) (stuck : r'.Stuck .ended)
      (rows : r'.tally.rows = r.tally.rows) : Called s limit fault r (.ended, r')
  | failed {e : Failure} {r' : Reader} (cause : e.OfReading limit fault) (schema : r'.schema = s)
      (stuck : r'.Stuck (.failed (.misuse .readerPoisoned))) (rows : r'.tally.rows = r.tally.rows) :
      Called s limit fault r (.failed e, r')

theorem called_call (h : r.Sound s limit fault) (hp : r.poisoned = false) (hc : c.Suits s) :
    Called s limit fault r (r.call c) := by
  obtain ⟨kept, hcall⟩ := call_of_seek h hp hc
  have hsought := sought_seek h
  rw [hcall]
  generalize r.seek = found at hsought
  cases hsought with
  | row sound left paid finished poisoned rows page =>
    exact .row (sound.advanced left kept) (poisoned.trans hp) rows
  | ended sound spent finished poisoned rows =>
    exact .ended sound.schema (.exhausted finished spent (poisoned.trans hp)) rows
  | failed cause sound poisoned rows =>
    exact .failed cause sound.schema (.poisoned poisoned) rows

/-! ### Any calls -/

/-- How replies end: not yet, or with the end of the stream for good, or with one failure and then
nothing but the complaint of a poisoned reader. -/
inductive Closing (limit : Nat) (fault : Option IoFault) : List Reply → Prop where
  | open : Closing limit fault []
  | ended (n : Nat) : Closing limit fault (List.replicate (n + 1) .ended)
  | failed {e : Failure} (cause : e.OfReading limit fault) (n : Nat) :
      Closing limit fault (.failed e :: List.replicate n (.failed (.misuse .readerPoisoned)))

theorem run_cons (r : Reader) (c : ReaderCall) (calls : List ReaderCall) :
    r.run (c :: calls) = (r.call c).2.run calls := rfl

theorem run_append (r : Reader) (before after : List ReaderCall) :
    r.run (before ++ after) = (r.run before).run after := List.foldl_append

theorem replies_cons_of_suits (hc : c.Suits r.schema) :
    r.replies (c :: calls) = (r.call c).1 :: (r.call c).2.replies calls := if_pos hc

theorem replies_cons_of_not_suits (hc : ¬ c.Suits r.schema) :
    r.replies (c :: calls) = (r.call c).2.replies calls := if_neg hc

/-- A call that does not suit leaves the reader as it is, but for the row it keeps. -/
theorem keeps_of_not_suits (hc : ¬ c.Suits r.schema) :
    ∃ kept, (r.call c).2 = { r with scratch := kept } := by
  obtain ⟨row, e, kept, -, -, hcall⟩ := call_of_not_suits hc
  exact ⟨kept, by rw [hcall]⟩

/-- All that looking for a row can come to, also on a reader that is poisoned. -/
theorem advance_cases (h : r.Sound s limit fault) :
    (∃ e r', r.advance = (.error e, r') ∧ r'.Sound s limit fault) ∨
      (∃ r', r.advance = (.ok false, r') ∧ r'.Sound s limit fault) ∨
      ∃ r', r.advance = (.ok true, r') ∧ r'.Sound s limit fault ∧ r'.feed.next < r'.feed.rows := by
  cases hp : r.poisoned with
  | true => exact .inl ⟨.misuse .readerPoisoned, r, by rw [advance, hp]; rfl, h⟩
  | false =>
    rw [advance_eq_seek hp]
    have hsought := sought_seek h
    generalize r.seek = out at hsought
    cases hsought with
    | row sound left => exact .inr (.inr ⟨_, rfl, sound, left⟩)
    | ended sound => exact .inr (.inl ⟨_, rfl, sound⟩)
    | failed _ sound => exact .inl ⟨_, _, rfl, sound⟩

/-- **Every call keeps a reader in good order.** -/
theorem Sound.call (h : r.Sound s limit fault) (c : ReaderCall) : (r.call c).2.Sound s limit fault := by
  by_cases hc : c.Suits r.schema
  · rcases advance_cases h with ⟨e, r', hadvance, hsound⟩ | ⟨r', hadvance, hsound⟩ |
      ⟨r', hadvance, hsound, hlt⟩
    · obtain ⟨kept, hcall⟩ := call_of_error hc hadvance
      rw [hcall]
      exact hsound.keeping kept
    · obtain ⟨-, kept, hcall⟩ := call_of_end hc hadvance
      rw [hcall]
      exact hsound.keeping kept
    · obtain ⟨p, hp⟩ := hsound.page (Nat.zero_lt_of_lt hlt)
      obtain ⟨-, kept, hcall⟩ := call_of_row hc hadvance h.schema hsound.ready hp hlt
      rw [hcall]
      exact hsound.advanced hlt kept
  · obtain ⟨kept, hcall⟩ := keeps_of_not_suits hc
    rw [hcall]
    exact h.keeping kept

variable {reply : Reply}

/-- A stuck reader stays as it is, whatever is asked of it, but for the row it keeps. -/
theorem Stuck.run (h : r.Stuck reply) (calls : List ReaderCall) :
    ∃ kept, r.run calls = { r with scratch := kept } := by
  induction calls generalizing r with
  | nil => exact ⟨r.scratch, rfl⟩
  | cons c calls ih =>
    have hstep : ∃ kept, (r.call c).2 = { r with scratch := kept } := by
      by_cases hc : c.Suits r.schema
      · obtain ⟨kept, hcall⟩ := h.call hc
        exact ⟨kept, by rw [hcall]⟩
      · exact keeps_of_not_suits hc
    obtain ⟨kept, hstep⟩ := hstep
    obtain ⟨kept', hrun⟩ := ih (h.scratch kept)
    exact ⟨kept', by rw [run_cons, hstep, hrun]⟩

theorem Stuck.replies (h : r.Stuck reply) (calls : List ReaderCall) :
    ∃ n, r.replies calls = List.replicate n reply := by
  induction calls generalizing r with
  | nil => exact ⟨0, rfl⟩
  | cons c calls ih =>
    by_cases hc : c.Suits r.schema
    · obtain ⟨kept, hcall⟩ := h.call hc
      obtain ⟨n, hn⟩ := ih (h.scratch kept)
      exact ⟨n + 1, by rw [replies_cons_of_suits hc, hcall, hn]; rfl⟩
    · obtain ⟨kept, hcall⟩ := keeps_of_not_suits hc
      obtain ⟨n, hn⟩ := ih (h.scratch kept)
      exact ⟨n, by rw [replies_cons_of_not_suits hc, hcall, hn]⟩

/-- How calls go on a reader in good order: some give rows and some are refused, until one gives no row
and the reader is stuck. -/
inductive Goes (s : Schema) (limit : Nat) (fault : Option IoFault) : Reader → List ReaderCall → Prop where
  | nil {r : Reader} (schema : r.schema = s) : Goes s limit fault r []
  | row {r r' : Reader} {c : ReaderCall} {calls : List ReaderCall} (schema : r.schema = s)
      (suits : c.Suits r.schema) (call : r.call c = (.row, r'))
      (rows : r'.tally.rows = r.tally.rows + 1) (rest : Goes s limit fault r' calls) :
      Goes s limit fault r (c :: calls)
  | refused {r : Reader} {c : ReaderCall} {calls : List ReaderCall} {kept : Option Row}
      (schema : r.schema = s) (not_suits : ¬ c.Suits r.schema)
      (call : (r.call c).2 = { r with scratch := kept })
      (rest : Goes s limit fault { r with scratch := kept } calls) : Goes s limit fault r (c :: calls)
  | last {r r' : Reader} {c : ReaderCall} {calls : List ReaderCall} {reply last : Reply}
      (schema : r.schema = s) (suits : c.Suits r.schema) (call : r.call c = (reply, r'))
      (not_row : reply ≠ .row) (rows : r'.tally.rows = r.tally.rows) (after : r'.schema = s)
      (stuck : r'.Stuck last) (closing : ∀ n, Closing limit fault (reply :: List.replicate n last)) :
      Goes s limit fault r (c :: calls)

theorem Sound.goes (h : r.Sound s limit fault) (hp : r.poisoned = false) (calls : List ReaderCall) :
    Goes s limit fault r calls := by
  induction calls generalizing r with
  | nil => exact .nil h.schema
  | cons c calls ih =>
    by_cases hc : c.Suits r.schema
    · have hcalled := called_call h hp (h.schema ▸ hc)
      generalize hout : r.call c = out at hcalled
      cases hcalled with
      | row sound poisoned rows => exact .row h.schema hc hout rows (ih sound poisoned)
      | ended schema stuck rows =>
        exact .last h.schema hc hout (by decide) rows schema stuck .ended
      | failed cause schema stuck rows =>
        exact .last h.schema hc hout (fun hrow => by cases hrow) rows schema stuck (.failed cause)
    · obtain ⟨kept, hcall⟩ := keeps_of_not_suits hc
      exact .refused h.schema hc hcall (ih (h.keeping kept) hp)

/-- The replies are rows, and then what ends them. -/
theorem Goes.closing (h : Goes s limit fault r calls) :
    ∃ n last, r.replies calls = List.replicate n .row ++ last ∧ Closing limit fault last := by
  induction h with
  | nil => exact ⟨0, [], rfl, .open⟩
  | row _ suits call _ _ ih =>
    obtain ⟨n, last, hreplies, hlast⟩ := ih
    exact ⟨n + 1, last, by rw [replies_cons_of_suits suits, call, hreplies]; rfl, hlast⟩
  | refused _ not_suits call _ ih =>
    rw [replies_cons_of_not_suits not_suits, call]
    exact ih
  | @last _ _ _ calls _ _ _ suits call _ _ _ stuck closing =>
    obtain ⟨n, hn⟩ := stuck.replies calls
    exact ⟨0, _, by rw [replies_cons_of_suits suits, call, hn]; rfl, closing n⟩

theorem Goes.counted (h : Goes s limit fault r calls) :
    (r.run calls).tally.rows = r.tally.rows + (r.replies calls).count .row := by
  induction h with
  | nil => rfl
  | row _ suits call rows _ ih =>
    rw [run_cons, replies_cons_of_suits suits, call, List.count_cons_self, ih, rows]
    exact Nat.succ_add_eq_add_succ _ _
  | refused _ not_suits call _ ih =>
    rw [run_cons, replies_cons_of_not_suits not_suits, call]
    exact ih
  | @last _ _ _ calls _ last _ suits call not_row rows _ stuck _ =>
    obtain ⟨kept, hrun⟩ := stuck.run calls
    obtain ⟨n, hn⟩ := stuck.replies calls
    have hlast : last ≠ .row := by
      cases stuck <;> exact fun hrow => by cases hrow
    rw [run_cons, replies_cons_of_suits suits, call, hrun, hn, List.count_cons_of_ne not_row,
      List.count_replicate, if_neg (by simpa using hlast)]
    exact rows

/-- Once a call has given no row, the reader is stuck. -/
theorem Goes.stuck (h : Goes s limit fault r calls) (hlast : ∃ reply ∈ r.replies calls, reply ≠ .row) :
    ∃ reply, (r.run calls).Stuck reply := by
  induction h with
  | nil =>
    obtain ⟨reply, hmem, -⟩ := hlast
    exact absurd hmem List.not_mem_nil
  | row _ suits call _ _ ih =>
    rw [run_cons, call]
    rw [replies_cons_of_suits suits, call] at hlast
    obtain ⟨reply, hmem, hne⟩ := hlast
    rcases List.mem_cons.mp hmem with hrow | hmem
    · exact absurd hrow hne
    · exact ih ⟨reply, hmem, hne⟩
  | refused _ not_suits call _ ih =>
    rw [replies_cons_of_not_suits not_suits, call] at hlast
    rw [run_cons, call]
    exact ih hlast
  | @last _ _ _ calls _ last _ _ call _ _ _ stuck _ =>
    obtain ⟨kept, hrun⟩ := stuck.run calls
    rw [run_cons, call, hrun]
    exact ⟨last, stuck.scratch kept⟩

theorem Goes.schema (h : Goes s limit fault r calls) : (r.run calls).schema = s := by
  induction h with
  | nil schema => exact schema
  | row _ _ call _ _ ih =>
    rw [run_cons, call]
    exact ih
  | refused _ _ call _ ih =>
    rw [run_cons, call]
    exact ih
  | @last _ _ _ calls _ _ _ _ call _ _ after stuck _ =>
    obtain ⟨kept, hrun⟩ := stuck.run calls
    rw [run_cons, call, hrun]
    exact after

/-- A page of two counters, and a page that breaks off. -/
def brokenOff : List UInt8 := [9, 2, 1, 0, 0, 4, 1, 5, 3, 4, 9, 2]

/-- A reader that was opened before these pages. -/
def counting : Reader where
  source := .ofBytes brokenOff
  header := .ofFingerprint Schema.counter.fingerprint
  feed := ⟨Schema.counter, [(.uint64, .uint)], Settings.small.maxPageBytes, [], [.vacant .uint], 0, 0, false⟩
  finished := false
  poisoned := false
  scratch := none
  tally := ⟨0, 0, Header.byteLength⟩

end Reader
end Columnar
