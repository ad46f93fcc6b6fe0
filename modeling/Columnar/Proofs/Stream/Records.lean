import Columnar.Proofs.Stream.Calls
import Columnar.Proofs.Stream.Ledger

/-!
# Records go through rows

Writers and readers keep the row that the last record went through, and take it again
for the next record if it is of the binding's schema.  What is in it then is what an
earlier record has left: of another binding perhaps, or half filled by one that was
refused.

None of that shows.  A record is written by setting slots of a row that was reset, and
read by filling all slots of a row or by no use of the row at all.  So every call on a
record comes to the same as with a fresh row of the binding's schema, after whatever
calls, and in all that is left behind but the row that is kept.

## Main definitions

* `Binding.cells`, `Binding.stores` — what a record makes of a row, and a row of a record.
* `Writer.writeFresh`, `Reader.readFresh` — a record goes through a fresh row.
* `Writer.bare`, `Reader.bare` — all but the row that is kept.

## Main results

* `Binding.fill_cases`, `Binding.apply_eq` — filling a row is setting its slots in order,
  and applying one is storing the values of its set slots.
* `Writer.writeRecord_fresh`, `Reader.readRecord_fresh` — one call.
* `Binding.records_are_rows` — **any calls.**
-/

namespace Columnar

/-! ### Between records and rows -/

namespace Binding

variable {α : Type}

/-- The values that are read off a record, field by field; fields that are not bound have none. -/
def cells (b : Binding α) (x : α) : List (Option Value) := b.accessors.map fun a => a.bind (·.get x)

/-- The bound fields whose slot is set, in their order, each with its value. -/
def stores (b : Binding α) (r : Row) : List (Accessor α × Value) :=
  (List.zip b.accessors r.slots).filterMap fun c => c.1.bind fun a => c.2.map fun v => (a, v)

/-- Store some values into a record, one after the other. -/
def storeAll (x : α) (vs : List (Accessor α × Value)) : α := vs.foldl (fun x c => c.1.set x c.2) x

theorem fillFrom_cases (x : α) (accessors : List (Option (Accessor α))) (r : Row) (i : Nat) :
    (∃ r', r.setFrom i (accessors.map fun a => a.bind (·.get x)) = .ok r' ∧
        fillFrom x r i accessors = (.ok (), r')) ∨
      ∃ e left, r.setFrom i (accessors.map fun a => a.bind (·.get x)) = .error e ∧
        fillFrom x r i accessors = (.error e, left) := by
  induction accessors generalizing r i with
  | nil => exact Or.inl ⟨r, rfl, rfl⟩
  | cons a accessors ih =>
    cases a with
    | none => exact ih r (i + 1)
    | some a =>
      rw [List.map_cons, Option.bind_some, fillFrom]
      cases a.get x with
      | none => exact ih r (i + 1)
      | some v =>
        simp only [Row.setFrom]
        cases r.set i v with
        | error e => exact Or.inr ⟨e, r, rfl, rfl⟩
        | ok r' => exact ih r' (i + 1)

/-- **Filling a row is setting the values of the record in the order of the fields**, in a row that has
nothing set, up to the first that is refused.  What was in the row does not matter. -/
theorem fill_cases (b : Binding α) (x : α) {r : Row} (hr : r.schema = b.schema) :
    (∃ r', Row.ofCells b.schema (b.cells x) = .ok r' ∧ b.fill x r = (.ok (), r')) ∨
      ∃ e left, Row.ofCells b.schema (b.cells x) = .error e ∧ b.fill x r = (.error e, left) := by
  rw [fill, Row.reset, hr]
  exact fillFrom_cases x b.accessors (Row.blank b.schema) 0

theorem applyFrom_eq (r : Row) (x : α) (accessors : List (Option (Accessor α))) (i : Nat) :
    applyFrom r x i accessors = storeAll x ((List.zip accessors (r.slots.drop i)).filterMap
      fun c => c.1.bind fun a => c.2.map fun v => (a, v)) := by
  induction accessors generalizing x i with
  | nil => rfl
  | cons a accessors ih =>
    rcases Nat.lt_or_ge i r.slots.length with hlt | hge
    · have hget : r.get? i = r.slots[i] := by
        rw [Row.get?, List.getElem?_eq_getElem hlt]
        rfl
      rw [List.drop_eq_getElem_cons hlt, List.zip_cons_cons, List.filterMap_cons]
      cases a with
      | none => exact ih x (i + 1)
      | some a =>
        rw [applyFrom, hget]
        cases r.slots[i] with
        | none => exact ih x (i + 1)
        | some v => exact ih (a.set x v) (i + 1)
    · -- behind the last slot there is nothing to store
      have hget : r.get? i = none := by
        rw [Row.get?, List.getElem?_eq_none hge]
        rfl
      have hrest := ih x (i + 1)
      rw [List.drop_eq_nil_of_le (Nat.le_succ_of_le hge), List.zip_nil_right] at hrest
      rw [List.drop_eq_nil_of_le hge, List.zip_nil_right]
      cases a with
      | none => exact hrest
      | some a =>
        rw [applyFrom, hget]
        exact hrest

/-- **Applying a row is storing the values of its set slots into the fields that are bound**, in their
order, and nothing else. -/
theorem apply_eq (b : Binding α) (r : Row) (x : α) : b.apply r x = storeAll x (b.stores r) :=
  applyFrom_eq r x b.accessors 0

end Binding

/-! ### Filling all slots -/

namespace Row

/-- What becomes of old slots does not depend on them, if all new ones can be had. -/
theorem refillSlots_congr (cell : Nat → Except Failure (Option Value)) {olds olds' : List (Option Value)}
    (h : olds.length = olds'.length) (i : Nat) :
    (refillSlots cell i olds).1 = (refillSlots cell i olds').1 ∧
      ((refillSlots cell i olds).1 = none → refillSlots cell i olds = refillSlots cell i olds') := by
  induction olds generalizing olds' i with
  | nil =>
    obtain rfl := List.length_eq_zero_iff.mp h.symm
    exact ⟨rfl, fun _ => rfl⟩
  | cons old olds ih =>
    cases olds' with
    | nil => cases h
    | cons old' olds' =>
      obtain ⟨hfirst, hall⟩ := ih (Nat.succ.inj h) (i + 1)
      rw [refillSlots, refillSlots]
      cases cell i with
      | error e => exact ⟨rfl, fun hnone => by cases hnone⟩
      | ok new =>
        refine ⟨hfirst, fun hnone => ?_⟩
        simp only [hall hnone]

theorem refill_congr {r r' : Row} (h : r.schema = r'.schema)
    (cell : Nat → Except Failure (Option Value)) :
    (r.refill cell).1 = (r'.refill cell).1 ∧
      ((r.refill cell).1 = .ok () → (r.refill cell).2 = (r'.refill cell).2) := by
  have hlen : r.slots.length = r'.slots.length := by rw [r.slots_length, r'.slots_length, h]
  obtain ⟨hfirst, hall⟩ := refillSlots_congr cell hlen 0
  refine ⟨by simp only [refill, hfirst], fun hok => ?_⟩
  have hnone : (refillSlots cell 0 r.slots).1 = none := by
    cases hslots : (refillSlots cell 0 r.slots).1 with
    | none => rfl
    | some e =>
      simp only [refill, hslots] at hok
      cases hok
  simp only [refill, hall hnone, h]

end Row

/-! ### Writing records -/

namespace Writer

section
variable {σ : Type} {f g : Writer σ → Except Failure Unit × Writer σ}

/-- The writer with another row kept for records. -/
def keeping (w : Writer σ) (kept : Option Row) : Writer σ := { w with scratch := kept }

/-- All of a writer but the row that it keeps for records. -/
def bare (w : Writer σ) : Writer σ := w.keeping none

@[simp] theorem bare_keeping (w : Writer σ) (kept : Option Row) : (w.keeping kept).bare = w.bare := rfl

/-- A step that does not look at the kept row, and leaves it. -/
def Blind (f : Writer σ → Except Failure Unit × Writer σ) : Prop :=
  ∀ w kept, f (w.keeping kept) = ((f w).1, (f w).2.keeping kept)

theorem Blind.andThen (hf : Blind f) (hg : Blind g) : Blind fun w => andThen (f w) g := by
  intro w kept
  have hfirst := hf w kept
  simp only [hfirst]
  rcases f w with ⟨e | u, w'⟩
  · rfl
  · exact hg w' kept

variable [ByteSink σ]

theorem blind_emit (bs : List UInt8) : Blind fun w : Writer σ => w.emit bs := by
  intro w kept
  show (w.keeping kept).emit bs = _
  simp only [emit, keeping]
  rcases ByteSink.write w.sink bs with ⟨sink, none | fault⟩ <;> rfl

theorem blind_flushSink : Blind (@flushSink σ _) := by
  intro w kept
  simp only [flushSink, keeping]
  rcases ByteSink.flush w.sink with ⟨sink, none | fault⟩ <;> rfl

theorem blind_writeHeader : Blind (@writeHeader σ _) := by
  intro w kept
  by_cases hheader : w.headerWritten = true
  · have hkept : (w.keeping kept).headerWritten = true := hheader
    rw [writeHeader, writeHeader, if_pos hheader, if_pos hkept]
  · have hkept : ¬ (w.keeping kept).headerWritten = true := hheader
    rw [writeHeader, writeHeader, if_neg hheader, if_neg hkept]
    exact (blind_emit _).andThen (fun _ _ => rfl) w kept

theorem blind_flushPage : Blind (@flushPage σ _) := by
  intro w kept
  have hdraft : (w.keeping kept).draft = w.draft := rfl
  rw [flushPage, flushPage, hdraft]
  by_cases hrows : w.draft.isEmpty = true
  · rw [if_pos hrows, if_pos hrows]
  · rw [if_neg hrows, if_neg hrows]
    cases w.draft.encode with
    | error e => rfl
    | ok body => exact (blind_emit _).andThen (fun _ _ => rfl) w kept

theorem blind_flush : Blind (@flush σ _) := by
  intro w kept
  have hclosed : (w.keeping kept).closed = w.closed := rfl
  rw [flush, flush, hclosed]
  split
  · rfl
  · exact blind_writeHeader.andThen (blind_flushPage.andThen blind_flushSink) w kept

theorem blind_close : Blind (@close σ _) := by
  intro w kept
  have hclosed : (w.keeping kept).closed = w.closed := rfl
  rw [close, close, hclosed]
  split
  · rfl
  · exact blind_writeHeader.andThen (blind_flushPage.andThen ((blind_emit [0]).andThen
      (blind_flushSink.andThen fun _ _ => rfl))) w kept

variable [TextHash]

theorem blind_addRow (r : Row) : Blind fun w : Writer σ => w.addRow r := by
  intro w kept
  have hdraft : (w.keeping kept).draft = w.draft := rfl
  simp only [addRow, hdraft]
  rcases w.draft.appendRow r with ⟨e | u, draft⟩
  · rfl
  · cases hfull : draft.isFull with
    | false => simp [hfull, keeping]
    | true =>
      simp only [hfull, if_true]
      exact blind_flushPage { w with draft, tally.rows := w.tally.rows + 1 } kept

theorem blind_writeRow (r : Row) : Blind fun w : Writer σ => w.writeRow r := by
  intro w kept
  have hclosed : (w.keeping kept).closed = w.closed := rfl
  have hschema : (w.keeping kept).schema = w.schema := rfl
  simp only [writeRow, hclosed, hschema]
  split
  · rfl
  · split
    · rfl
    · split
      · rfl
      · exact blind_writeHeader.andThen (blind_addRow r) w kept

/-- Write the row that comes of setting the values of a record in a fresh row, if none is refused. -/
def writeFresh {α : Type} (w : Writer σ) (b : Binding α) (x : α) : Except Failure Unit × Writer σ :=
  match Row.ofCells b.schema (b.cells x) with
  | .error e => (.error e, w)
  | .ok r => w.writeRow r

/-- **A record is written as a fresh row is**, whatever row was kept. -/
theorem writeRecord_fresh {α : Type} (w : Writer σ) (b : Binding α) (x : α) :
    ∃ kept, w.writeRecord b x = ((w.writeFresh b x).1, (w.writeFresh b x).2.keeping kept) := by
  rw [writeRecord, writeFresh]
  rcases b.fill_cases x (Row.schema_reuse w.scratch b.schema) with ⟨r, hcells, hfill⟩ |
    ⟨e, left, hcells, hfill⟩
  · rw [hcells, hfill]
    exact ⟨some r, rfl⟩
  · rw [hcells, hfill]
    exact ⟨some left, rfl⟩

/-- A call, in which a record goes through a fresh row. -/
def freshStep (w : Writer σ) : WriterCall → Except Failure Unit × Writer σ
  | .row r => w.writeRow r
  | .record b x => w.writeFresh b x
  | .flush => w.flush
  | .close => w.close

/-- The writer after some calls, in which records go through fresh rows. -/
def freshRun (w : Writer σ) (calls : List WriterCall) : Writer σ :=
  calls.foldl (fun w c => (w.freshStep c).2) w

/-- What these calls return. -/
def freshResults (w : Writer σ) : List WriterCall → List (Except Failure Unit)
  | [] => []
  | c :: calls => (w.freshStep c).1 :: (w.freshStep c).2.freshResults calls

theorem blind_freshStep (c : WriterCall) : Blind fun w : Writer σ => w.freshStep c := by
  cases c with
  | row r => exact blind_writeRow r
  | record b x =>
    intro w kept
    simp only [freshStep, writeFresh]
    cases Row.ofCells b.schema (b.cells x) with
    | error e => rfl
    | ok r => exact blind_writeRow r w kept
  | flush => exact blind_flush
  | close => exact blind_close

/-- A call does what it does with fresh rows, but for the row that is kept. -/
theorem step_fresh (w : Writer σ) (kept : Option Row) (c : WriterCall) :
    ∃ kept', (w.keeping kept).step c = ((w.freshStep c).1, (w.freshStep c).2.keeping kept') := by
  have hblind := blind_freshStep c w kept
  cases c with
  | row r => exact ⟨kept, hblind⟩
  | flush => exact ⟨kept, hblind⟩
  | close => exact ⟨kept, hblind⟩
  | record b x =>
    obtain ⟨kept', hfresh⟩ := (w.keeping kept).writeRecord_fresh b x
    refine ⟨kept', hfresh.trans ?_⟩
    simp only [freshStep] at hblind
    rw [hblind]
    rfl

/-- **So do any calls.** -/
theorem run_fresh (w : Writer σ) (kept : Option Row) (calls : List WriterCall) :
    (w.keeping kept).results calls = w.freshResults calls ∧
      ∃ kept', (w.keeping kept).run calls = (w.freshRun calls).keeping kept' := by
  induction calls generalizing w kept with
  | nil => exact ⟨rfl, kept, rfl⟩
  | cons c calls ih =>
    obtain ⟨kept', hstep⟩ := w.step_fresh kept c
    obtain ⟨hresults, hrun⟩ := ih (w.freshStep c).2 kept'
    refine ⟨?_, ?_⟩
    · rw [results, freshResults, hstep, hresults]
    · rw [run, List.foldl_cons, hstep]
      exact hrun

end

end Writer

/-! ### Reading records -/

/-- What a row that is read into was before does not show, if a row is read. -/
theorem Feed.readRow_congr (f : Feed) {row row' : Row} (h : row.schema = row'.schema) :
    (f.readRow row).1 = (f.readRow row').1 ∧ (f.readRow row).2.1 = (f.readRow row').2.1 ∧
      ((f.readRow row).1 = .ok true → (f.readRow row).2.2 = (f.readRow row').2.2) := by
  unfold readRow
  rcases f.nextView with ⟨none | v, f'⟩
  · exact ⟨rfl, rfl, fun hok => by cases hok⟩
  · obtain ⟨hresult, hrow⟩ := Row.refill_congr h v.get
    refine ⟨congrArg (Except.map fun _ => true) hresult, rfl, fun hok => hrow ?_⟩
    cases hfirst : (row.refill v.get).1 with
    | ok u => rfl
    | error e =>
      simp only [hfirst] at hok
      cases hok

namespace Reader

/-- The reader with another row kept for records. -/
def keeping (r : Reader) (kept : Option Row) : Reader := { r with scratch := kept }

/-- All of a reader but the row that it keeps for records. -/
def bare (r : Reader) : Reader := r.keeping none

@[simp] theorem bare_keeping (r : Reader) (kept : Option Row) : (r.keeping kept).bare = r.bare := rfl

/-- Looking for a row does not look at the kept one. -/
theorem seek_keeping (r : Reader) (kept : Option Row) :
    (r.keeping kept).seek = (r.seek.1, r.seek.2.keeping kept) := by
  induction hn : r.source.bytes.length using Nat.strong_induction_on generalizing r with
  | _ n ih =>
    subst hn
    by_cases hrem : r.feed.remaining ≠ 0
    · have hkept : (r.keeping kept).feed.remaining ≠ 0 := hrem
      rw [seek_of_remaining hrem, seek_of_remaining hkept]
      rfl
    have hrem := Decidable.not_not.mp hrem
    have hkept : (r.keeping kept).feed.remaining = 0 := hrem
    cases hf : r.finished with
    | true =>
      have hfkept : (r.keeping kept).finished = true := hf
      rw [seek_of_finished hrem hf, seek_of_finished hkept hfkept]
    | false =>
      have hfkept : (r.keeping kept).finished = false := hf
      have hsame : (r.keeping kept).feed.load (r.keeping kept).source = r.feed.load r.source := rfl
      rcases hload : r.feed.load r.source with ⟨e | b, feed, source⟩
      · rw [seek_of_load_error hrem hf hload, seek_of_load_error hkept hfkept (hsame.trans hload)]
        rfl
      · cases b with
        | false =>
          rw [seek_of_load_end hrem hf hload, seek_of_load_end hkept hfkept (hsame.trans hload)]
          rfl
        | true =>
          rw [seek_of_load_page hrem hf hload, seek_of_load_page hkept hfkept (hsame.trans hload)]
          exact ih _ (Feed.length_lt_of_load hload) (r.paged feed source) rfl

theorem advance_keeping (r : Reader) (kept : Option Row) :
    (r.keeping kept).advance = (r.advance.1, r.advance.2.keeping kept) := by
  have hpoisoned : (r.keeping kept).poisoned = r.poisoned := rfl
  rw [advance, advance, hpoisoned]
  split
  · rfl
  · exact r.seek_keeping kept

/-- Reading a row goes through no other one. -/
theorem readRow_keeping (r : Reader) (kept : Option Row) (row : Row) : (r.keeping kept).readRow row =
    ((r.readRow row).1, (r.readRow row).2.1.keeping kept, (r.readRow row).2.2) := by
  have haccepts : (r.keeping kept).accepts row = r.accepts row := rfl
  rw [readRow, readRow, haccepts, r.advance_keeping]
  cases r.accepts row with
  | error e => rfl
  | ok u =>
    rcases r.advance with ⟨e | b, r'⟩
    · rfl
    · cases b with
      | false => rfl
      | true =>
        have hfeed : (r'.keeping kept).feed = r'.feed := rfl
        simp only [hfeed]
        rcases r'.feed.readRow row with ⟨e | more, feed, new⟩ <;> rfl

theorem readView_keeping (r : Reader) (kept : Option Row) :
    (r.keeping kept).readView = (r.readView.1, r.readView.2.keeping kept) := by
  rw [readView, readView, r.advance_keeping]
  rcases r.advance with ⟨e | b, r'⟩
  · rfl
  · cases b <;> rfl

theorem nextRow_keeping (r : Reader) (kept : Option Row) :
    (r.keeping kept).nextRow = (r.nextRow.1, r.nextRow.2.keeping kept) := by
  rw [nextRow, nextRow, r.readView_keeping]
  rcases r.readView with ⟨e | found, r'⟩
  · rfl
  · cases found <;> rfl

/-- What a row that is read into was before does not show. -/
theorem readRow_congr (r : Reader) {row row' : Row} (h : row.schema = row'.schema) :
    (r.readRow row).1 = (r.readRow row').1 ∧ (r.readRow row).2.1 = (r.readRow row').2.1 ∧
      ((r.readRow row).1 = .ok true → (r.readRow row).2.2 = (r.readRow row').2.2) := by
  rw [readRow, readRow, r.accepts_congr h]
  cases r.accepts row' with
  | error e => exact ⟨rfl, rfl, fun hok => by cases hok⟩
  | ok u =>
    rcases r.advance with ⟨e | b, r'⟩
    · exact ⟨rfl, rfl, fun hok => by cases hok⟩
    · cases b with
      | false => exact ⟨rfl, rfl, fun hok => by cases hok⟩
      | true =>
        obtain ⟨hresult, hfeed, hrow⟩ := r'.feed.readRow_congr h
        simp only
        generalize r'.feed.readRow row = out at hresult hfeed hrow ⊢
        generalize r'.feed.readRow row' = out' at hresult hfeed hrow ⊢
        obtain ⟨result, feed, new⟩ := out
        obtain ⟨result', feed', new'⟩ := out'
        obtain rfl : result = result' := hresult
        obtain rfl : feed = feed' := hfeed
        cases result with
        | error e => exact ⟨rfl, rfl, fun hok => by cases hok⟩
        | ok more => exact ⟨rfl, rfl, hrow⟩

/-- Read the next row into a fresh one, and if there was one store the values of its set slots into a
record. -/
def readFresh {α : Type} (r : Reader) (b : Binding α) (x : α) : Except Failure Bool × Reader × α :=
  match r.readRow (Row.blank b.schema) with
  | (.ok true, r, row) => (.ok true, r, Binding.storeAll x (b.stores row))
  | (result, r, _) => (result, r, x)

/-- **A record is read as a fresh row is**, whatever row was kept. -/
theorem readRecord_fresh {α : Type} (r : Reader) (b : Binding α) (x : α) :
    ∃ kept, r.readRecord b x =
      ((r.readFresh b x).1, (r.readFresh b x).2.1.keeping kept, (r.readFresh b x).2.2) := by
  have hschema : (Row.reuse r.scratch b.schema).schema = (Row.blank b.schema).schema :=
    Row.schema_reuse _ _
  obtain ⟨hresult, hreader, hrow⟩ := r.readRow_congr hschema
  rw [readRecord, readFresh]
  generalize r.readRow (Row.reuse r.scratch b.schema) = out at hresult hreader hrow ⊢
  generalize r.readRow (Row.blank b.schema) = out' at hresult hreader hrow ⊢
  obtain ⟨result, r₁, row⟩ := out
  obtain ⟨result', r₂, row'⟩ := out'
  obtain rfl : result = result' := hresult
  obtain rfl : r₁ = r₂ := hreader
  rcases result with e | found
  · exact ⟨some row, rfl⟩
  · cases found with
    | false => exact ⟨some row, rfl⟩
    | true =>
      obtain rfl : row = row' := hrow rfl
      refine ⟨some row, ?_⟩
      simp only [b.apply_eq]
      rfl

/-- The reply to a call in which a record goes through a fresh row, and the reader after it. -/
def freshCall (r : Reader) : ReaderCall → Reply × Reader
  | .record b into =>
    let (result, r, _) := r.readFresh b into
    (.ofFound result, r)
  | .row into => r.call (.row into)
  | .view => r.call .view
  | .next => r.call .next

/-- The reader after some calls, in which records go through fresh rows. -/
def freshRun (r : Reader) (calls : List ReaderCall) : Reader :=
  calls.foldl (fun r c => (r.freshCall c).2) r

theorem readFresh_keeping {α : Type} (r : Reader) (kept : Option Row) (b : Binding α) (x : α) :
    (r.keeping kept).readFresh b x =
      ((r.readFresh b x).1, (r.readFresh b x).2.1.keeping kept, (r.readFresh b x).2.2) := by
  rw [readFresh, readFresh, r.readRow_keeping]
  rcases r.readRow (Row.blank b.schema) with ⟨e | found, r', row⟩
  · rfl
  · cases found <;> rfl

/-- A call does what it does with fresh rows, but for the row that is kept. -/
theorem call_fresh (r : Reader) (kept : Option Row) (c : ReaderCall) :
    ∃ kept', (r.keeping kept).call c = ((r.freshCall c).1, (r.freshCall c).2.keeping kept') := by
  cases c with
  | row into =>
    refine ⟨kept, ?_⟩
    rw [freshCall, call, call, r.readRow_keeping]
  | view =>
    refine ⟨kept, ?_⟩
    rw [freshCall, call, call, r.readView_keeping]
  | next =>
    refine ⟨kept, ?_⟩
    rw [freshCall, call, call, r.nextRow_keeping]
  | record b into =>
    obtain ⟨kept', hfresh⟩ := (r.keeping kept).readRecord_fresh b into
    refine ⟨kept', ?_⟩
    rw [freshCall, call, hfresh, r.readFresh_keeping]
    rfl

/-- **So do any calls.** -/
theorem run_fresh (r : Reader) (kept : Option Row) (calls : List ReaderCall) :
    ∃ kept', (r.keeping kept).run calls = (r.freshRun calls).keeping kept' := by
  induction calls generalizing r kept with
  | nil => exact ⟨kept, rfl⟩
  | cons c calls ih =>
    obtain ⟨kept', hcall⟩ := r.call_fresh kept c
    rw [run_cons, hcall]
    exact ih (r.freshCall c).2 kept'

end Reader

/-! ### Any calls -/

namespace Binding

/-- **Record calls are row calls.**  To a writer in any state, over any sink, it makes no difference if
each record in some calls is written as a fresh row of the binding's schema with the values of the record
set in the order of the fields, or not at all if one of them is refused: the results are the same, and
so is all that the writer comes to, but for the row that it keeps for records.  To a reader it makes none
if each record is read as a fresh row, and the values of set slots are stored into the bound fields in
their order if there was a row. -/
theorem records_are_rows :
    (∀ (σ : Type) [ByteSink σ] [TextHash] (w : Writer σ) (calls : List WriterCall),
      w.results calls = w.freshResults calls ∧ (w.run calls).bare = (w.freshRun calls).bare) ∧
    ∀ (r : Reader) (calls : List ReaderCall), (r.run calls).bare = (r.freshRun calls).bare ∧
      (∀ c, ((r.run calls).call c).1 = ((r.freshRun calls).freshCall c).1) ∧
      ∀ (α : Type) (b : Binding α) (x : α),
        let read := (r.run calls).readRecord b x
        let fresh := (r.freshRun calls).readFresh b x
        read.1 = fresh.1 ∧ read.2.1.bare = fresh.2.1.bare ∧ read.2.2 = fresh.2.2 := by
  refine ⟨fun σ _ _ w calls => ?_, fun r calls => ?_⟩
  · obtain ⟨hresults, kept, hrun⟩ := w.run_fresh w.scratch calls
    have hrun : w.run calls = (w.freshRun calls).keeping kept := hrun
    exact ⟨hresults, by rw [hrun, Writer.bare_keeping]⟩
  · obtain ⟨kept, hrun⟩ := r.run_fresh r.scratch calls
    have hrun : r.run calls = (r.freshRun calls).keeping kept := hrun
    rw [hrun]
    refine ⟨rfl, fun c => ?_, fun α b x => ?_⟩
    · obtain ⟨kept', hcall⟩ := (r.freshRun calls).call_fresh kept c
      rw [hcall]
    · obtain ⟨kept', hrecord⟩ := ((r.freshRun calls).keeping kept).readRecord_fresh b x
      rw [hrecord, (r.freshRun calls).readFresh_keeping]
      exact ⟨rfl, rfl, rfl⟩

end Binding
end Columnar
