import Columnar.Proofs.Page.Pool
import Columnar.Stream.Writer

/-!
# The ledger of a writer

What a writer has done is told by a ledger: the rows of the pages that it has
written, and the rows that it still holds.  The bytes in the sink, the rows in the
draft and the counters all follow from the ledger, after any calls.

## Main definitions

* `WriterCall` — a call on a writer.
* `Ledger` — pages written and rows held.
* `Writer.Tracks` — a writer is as its ledger says.

## Main results

* `Writer.tracks_step`, `Writer.tracks_run` — each call, and so any run of calls,
  keeps writer and ledger in step.
* `Writer.accounts_run` — what that means for sink, draft and counters.
-/

namespace Columnar

/-- A call on a writer. -/
inductive WriterCall : Type 1 where
  | row (r : Row)
  | record {α : Type} (b : Binding α) (x : α)
  | flush
  | close

/-- The row that a call offers to a writer, if it gets as far as that. -/
def WriterCall.row? : WriterCall → Option Row
  | row r => some r
  | record b x =>
    match b.fill x (Row.blank b.schema) with
    | (.ok (), r) => some r
    | (.error _, _) => none
  | flush | close => none

/-- The row that a call has put into a writer: its own, if it succeeded. -/
def WriterCall.taken (c : WriterCall) : Except Failure Unit → List (List (Option Value))
  | .ok () => (c.row?.map Row.slots).toList
  | .error _ => []

namespace Binding

/-- The row that a record makes does not depend on the row that is reused for it. -/
theorem fill_reuse {α : Type} (b : Binding α) (x : α) (kept : Option Row) :
    b.fill x (Row.reuse kept b.schema) = b.fill x (Row.blank b.schema) := by
  have hschema : (Row.reuse kept b.schema).schema = b.schema := by
    unfold Row.reuse
    split
    · split
      · next h => exact h
      · rfl
    · rfl
  unfold fill Row.reset
  rw [hschema]
  rfl

end Binding

/-- Pages that were written, and rows that wait for the next one. -/
structure Ledger where
  pages : List (List (List (Option Value)))
  held : List (List (Option Value))
deriving DecidableEq

namespace Ledger

/-- Nothing was written and nothing waits. -/
def empty : Ledger := ⟨[], []⟩

/-- The rows that wait become a page. -/
def flush (l : Ledger) : Ledger := if l.held = [] then l else ⟨l.pages ++ [l.held], []⟩

/-- One more row waits; once there are as many as a page takes, they become one. -/
def add (limit : Nat) (l : Ledger) (slots : List (Option Value)) : Ledger :=
  if limit ≤ l.held.length + 1 then ⟨l.pages ++ [l.held ++ [slots]], []⟩
  else ⟨l.pages, l.held ++ [slots]⟩

/-- What a call does that succeeds; one that fails does nothing. -/
def after (limit : Nat) (l : Ledger) (call : WriterCall) : Except Failure Unit → Ledger
  | .error _ => l
  | .ok () =>
    match call.row? with
    | some r => l.add limit r.slots
    | none => l.flush

/-- What some calls do that all succeed. -/
def afterAll (limit : Nat) (l : Ledger) (calls : List WriterCall) : Ledger :=
  calls.foldl (fun l c => l.after limit c (.ok ())) l

/-- All rows, in order. -/
def rows (l : Ledger) : List (List (Option Value)) := l.pages.flatten ++ l.held

@[simp] theorem rows_flush (l : Ledger) : l.flush.rows = l.rows := by
  unfold flush rows
  split
  · rfl
  · simp

@[simp] theorem rows_add (limit : Nat) (l : Ledger) (slots : List (Option Value)) :
    (l.add limit slots).rows = l.rows ++ [slots] := by
  unfold add rows
  split <;> simp

theorem rows_after (limit : Nat) (l : Ledger) (c : WriterCall) (result : Except Failure Unit) :
    (l.after limit c result).rows = l.rows ++ c.taken result := by
  cases result with
  | error e => simp [after, WriterCall.taken]
  | ok u =>
    unfold after WriterCall.taken
    cases c.row? with
    | none => simp
    | some r => simp

theorem held_flush (l : Ledger) : l.flush.held = [] := by
  unfold flush
  split
  · next h => exact h
  · rfl

end Ledger

/-- A row that a writer of a schema can put into its draft, if there is room for it. -/
structure Row.Enters (r : Row) (s : Schema) (shapes : List Lane.Shape) : Prop where
  width : r.width = s.width
  fingerprint : r.schema.fingerprint = s.fingerprint
  length : r.slots.length = shapes.length
  takes : Draft.Takes shapes r.slots

namespace Writer

section
variable {σ : Type} [ByteSink σ] [TextHash]

/-- A call, and the writer after it. -/
def step (w : Writer σ) : WriterCall → Except Failure Unit × Writer σ
  | .row r => w.writeRow r
  | .record b x => w.writeRecord b x
  | .flush => w.flush
  | .close => w.close

/-- The writer after some calls. -/
def run (w : Writer σ) (calls : List WriterCall) : Writer σ := calls.foldl (fun w c => (w.step c).2) w

/-- The rows of the calls that returned success, in order. -/
def accepted (w : Writer σ) : List WriterCall → List (List (Option Value))
  | [] => []
  | c :: calls => c.taken (w.step c).1 ++ (w.step c).2.accepted calls

/-- What some calls returned, in order. -/
def results (w : Writer σ) : List WriterCall → List (Except Failure Unit)
  | [] => []
  | c :: calls => (w.step c).1 :: (w.step c).2.results calls

/-- The ledger after some calls. -/
def follow (w : Writer σ) (limit : Nat) (l : Ledger) : List WriterCall → Ledger
  | [] => l
  | c :: calls => (w.step c).2.follow limit (l.after limit c (w.step c).1) calls

end

/-- The frames of some pages. -/
def frames (shapes : List Lane.Shape) (pages : List (List (List (Option Value)))) : List UInt8 :=
  pages.flatMap fun rows => frame (Page.spell shapes rows)

/-- The header of a stream and the frames of some pages. -/
def spell (s : Schema) (shapes : List Lane.Shape) (pages : List (List (List (Option Value)))) :
    List UInt8 :=
  (Header.ofFingerprint s.fingerprint).toBytes ++ frames shapes pages

theorem spell_concat (s : Schema) (shapes : List Lane.Shape) (pages : List (List (List (Option Value))))
    (rows : List (List (Option Value))) :
    spell s shapes (pages ++ [rows]) = spell s shapes pages ++ frame (Page.spell shapes rows) := by
  simp [spell, frames]

/-- The byte behind the last frame, once the writer is closed. -/
def mark (closed : Bool) : List UInt8 := if closed then [0] else []

/-! ### Parts of calls over memory -/

theorem emit_eq (w : Writer Memory) (bs : List UInt8) :
    w.emit bs = (.ok (), { w with
      sink := ⟨w.sink.written ++ bs⟩
      tally := { w.tally with bytes := w.tally.bytes + bs.length } }) := rfl

theorem writeHeader_eq {w : Writer Memory} (hw : ¬ w.headerWritten = true) :
    w.writeHeader = (.ok (), { w with
      sink := ⟨w.sink.written ++ (Header.ofFingerprint w.schema.fingerprint).toBytes⟩
      headerWritten := true
      tally := { w.tally with
        bytes := w.tally.bytes + (Header.ofFingerprint w.schema.fingerprint).toBytes.length } }) := by
  rw [writeHeader, if_neg hw, emit_eq]
  rfl

theorem flushPage_eq {w : Writer Memory} {body : List UInt8} (hrows : ¬ w.draft.isEmpty = true)
    (hbody : w.draft.encode = .ok body) :
    w.flushPage = (.ok (), { w with
      sink := ⟨w.sink.written ++ frame body⟩
      draft := w.draft.reset
      tally := { w.tally with
        pages := w.tally.pages + 1
        bytes := w.tally.bytes + (frame body).length } }) := by
  rw [flushPage, if_neg hrows, hbody]
  simp only [emit_eq]
  rfl

/-! ### Writers that have written nothing -/

variable {s : Schema} {settings : Settings} {w : Writer Memory}

/-- **A writer whose draft a pool kept is the one with a draft of its own.** -/
theorem makePooled_of_fresh {σ : Type} {p : Pool} {s : MarkedSchema} (hp : p.Fresh s) (sink : σ)
    (settings : Settings) : (makePooled p sink s settings).1 = make sink s.schema settings := by
  unfold makePooled make
  cases checkSetup s.schema settings with
  | error e => rfl
  | ok u =>
    -- a draft that a pool kept is as good as a new one
    simp only [Pool.acquire_of_fresh hp]
    cases Draft.make s.schema settings.pageRows <;> rfl

/-- A writer over memory that has written nothing, with a draft of its own or one that a pool kept. -/
inductive Opened (s : Schema) (settings : Settings) : Writer Memory → Prop where
  | own {w : Writer Memory} (h : make Memory.empty s settings = .ok w) : Opened s settings w
  | pooled {p : Pool} {mark : Nat} {w : Writer Memory} (hp : p.Fresh ⟨mark, s⟩)
      (h : (makePooled p Memory.empty ⟨mark, s⟩ settings).1 = .ok w) : Opened s settings w

/-- A writer starts over an empty draft, wherever that came from. -/
theorem exists_start {σ : Type} {sink : σ} {w : Writer σ} (h : make sink s settings = .ok w) :
    checkSetup s settings = .ok () ∧
      ∃ d, Draft.make s settings.pageRows = .ok d ∧ w = start sink s d := by
  obtain ⟨u, hcheck, h⟩ := exists_of_bind h
  obtain ⟨d, hd, h⟩ := exists_of_bind h
  cases h
  exact ⟨hcheck, d, hd, rfl⟩

theorem opened_start (h : Opened s settings w) : checkSetup s settings = .ok () ∧
    ∃ d, Draft.make s settings.pageRows = .ok d ∧ w = start Memory.empty s d := by
  cases h with
  | own h => exact exists_start h
  | pooled hp h =>
    rw [makePooled_of_fresh hp] at h
    exact exists_start h

/-- A writer is open at first. -/
theorem closed_of_opened (h : Opened s settings w) : w.closed = false := by
  obtain ⟨-, d, -, rfl⟩ := opened_start h
  rfl

/-- A writer of counters, with four to a page. -/
def counting : Writer Memory :=
  start Memory.empty Schema.counter ⟨Schema.counter, 4, 0, Draft.emptyLanes Schema.counter [(.uint64, .uint)]⟩

theorem opened_counting : Opened Schema.counter .small counting :=
  .own (rfl : make Memory.empty Schema.counter .small = .ok counting)

/-! ### Writers and their ledgers -/

variable [TextHash]

/-- A writer is as its ledger says. -/
structure Tracks (s : Schema) (shapes : List Lane.Shape) (limit : Nat) (w : Writer Memory)
    (l : Ledger) : Prop where
  ofSchema : w.schema = s
  ofShapes : w.draft.shapes = shapes
  ofLimit : w.draft.limit = limit
  draft : w.draft.Holds l.held
  pages : ∀ p ∈ l.pages, 1 ≤ p.length ∧ p.length ≤ limit
  typed : ∀ r ∈ l.rows, r.length = shapes.length ∧ Draft.Takes shapes r
  /-- The header is written before anything else. -/
  unwritten : w.headerWritten = false → w.closed = false ∧ l.rows = [] ∧ w.sink.written = []
  sink : w.headerWritten = true → w.sink.written = spell s shapes l.pages ++ mark w.closed
  tally : w.tally = ⟨l.rows.length, l.pages.length, w.sink.written.length⟩
  closed : w.closed = true → l.held = []

variable {shapes : List Lane.Shape} {limit : Nat} {l : Ledger}

/-! ### The parts of a call -/

theorem pages_of_unwritten (h : w.Tracks s shapes limit l) (hw : w.headerWritten = false) :
    l.pages = [] ∧ l.held = [] := by
  obtain ⟨-, hrows, -⟩ := h.unwritten hw
  obtain ⟨hpages, hheld⟩ := List.append_eq_nil_iff.mp hrows
  refine ⟨?_, hheld⟩
  cases hp : l.pages with
  | nil => rfl
  | cons p pages =>
    -- a page without rows is not in the ledger
    rw [hp, List.flatten_cons] at hpages
    have hlen := (h.pages p (hp ▸ List.mem_cons_self)).1
    rw [(List.append_eq_nil_iff.mp hpages).1] at hlen
    exact absurd hlen (Nat.not_succ_le_zero 0)

theorem tracks_writeHeader (h : w.Tracks s shapes limit l) :
    ∃ w', w.writeHeader = (.ok (), w') ∧ w'.Tracks s shapes limit l ∧ w'.headerWritten = true ∧
      w'.closed = w.closed := by
  by_cases hw : w.headerWritten = true
  · exact ⟨w, by rw [writeHeader, if_pos hw], h, hw, rfl⟩
  have hw' : w.headerWritten = false := Bool.eq_false_iff.mpr hw
  obtain ⟨hopen, hrows, hsink⟩ := h.unwritten hw'
  obtain ⟨hpages, -⟩ := pages_of_unwritten h hw'
  have hbytes : w.sink.written ++ (Header.ofFingerprint w.schema.fingerprint).toBytes =
      spell s shapes l.pages ++ mark w.closed := by
    rw [hsink, hopen, hpages, h.ofSchema]
    simp [spell, frames, mark]
  refine ⟨_, writeHeader_eq hw, ?_, rfl, rfl⟩
  refine ⟨h.ofSchema, h.ofShapes, h.ofLimit, h.draft, h.pages, h.typed,
    fun hfalse => (by cases hfalse), fun _ => hbytes, ?_, h.closed⟩
  simp only [h.tally, List.length_append]

/-- Writing the page of a draft with rows moves them from the held ones to the pages. -/
theorem tracks_flushPage (h : w.Tracks s shapes limit l) (hheader : w.headerWritten = true)
    (hopen : w.closed = false) (hroom : l.held.length ≤ limit) :
    ∃ w', w.flushPage = (.ok (), w') ∧ w'.Tracks s shapes limit l.flush ∧ w'.headerWritten = true ∧
      w'.closed = false := by
  by_cases hheld : l.held = []
  · -- nothing is held, so nothing is written
    have hempty : w.draft.isEmpty = true := by
      rw [Draft.isEmpty, h.draft.count, hheld]
      rfl
    have hflush : l.flush = l := by rw [Ledger.flush, if_pos hheld]
    refine ⟨w, by rw [flushPage, if_pos hempty], ?_, hheader, hopen⟩
    rwa [hflush]
  have hempty : ¬ w.draft.isEmpty = true := by
    rw [Draft.isEmpty, h.draft.count, beq_iff_eq]
    exact fun hlen => hheld (List.length_eq_zero_iff.mp hlen)
  have hbody := Draft.encode_eq_spell h.draft hheld
  have halike := w.draft.alike_reset
  have hflush : l.flush = ⟨l.pages ++ [l.held], []⟩ := by rw [Ledger.flush, if_neg hheld]
  have hrows : l.flush.rows = l.rows := l.rows_flush
  refine ⟨_, flushPage_eq hempty hbody, ?_, hheader, hopen⟩
  refine ⟨h.ofSchema, halike.shapes.trans h.ofShapes, halike.limit.trans h.ofLimit, ?_, ?_, ?_,
    ?_, ?_, ?_, fun _ => Ledger.held_flush l⟩
  · rw [hflush]
    exact w.draft.holds_reset
  · rw [hflush]
    intro p hp
    rcases List.mem_append.mp hp with hp | hp
    · exact h.pages p hp
    · obtain rfl := List.mem_singleton.mp hp
      exact ⟨Nat.succ_le_of_lt (List.length_pos_iff.mpr hheld), hroom⟩
  · rw [hrows]
    exact h.typed
  · intro hfalse
    rw [show w.headerWritten = false from hfalse] at hheader
    cases hheader
  · intro _
    show w.sink.written ++ frame (Page.spell w.draft.shapes l.held) = _ ++ mark w.closed
    rw [h.sink hheader, hopen, hflush, spell_concat, h.ofShapes]
    simp [mark]
  · rw [hrows, hflush]
    simp only [h.tally, List.length_append, List.length_singleton]

/-- A draft with the same rows may be put in the place of a writer's. -/
theorem Tracks.redrafted (h : w.Tracks s shapes limit l) {d : Draft} (hholds : d.Holds l.held)
    (halike : w.draft.Alike d) : ({ w with draft := d } : Writer Memory).Tracks s shapes limit l :=
  ⟨h.ofSchema, halike.shapes.trans h.ofShapes, halike.limit.trans h.ofLimit, hholds, h.pages, h.typed,
    h.unwritten, h.sink, h.tally, h.closed⟩

/-- A row that the draft of an open writer has taken is one of those held, and counted. -/
theorem Tracks.drafted (h : w.Tracks s shapes limit l) (hheader : w.headerWritten = true)
    (hopen : w.closed = false) {slots : List (Option Value)} {d : Draft}
    (hholds : d.Holds (l.held ++ [slots])) (halike : w.draft.Alike d)
    (hwidth : slots.length = shapes.length) (htakes : Draft.Takes shapes slots) :
    ({ w with draft := d, tally.rows := w.tally.rows + 1 } : Writer Memory).Tracks s shapes limit
      ⟨l.pages, l.held ++ [slots]⟩ := by
  refine ⟨h.ofSchema, halike.shapes.trans h.ofShapes, halike.limit.trans h.ofLimit, hholds,
    h.pages, ?_, ?_, h.sink, ?_, ?_⟩
  · intro q hq
    rw [Ledger.rows, ← List.append_assoc] at hq
    rcases List.mem_append.mp hq with hq | hq
    · exact h.typed q hq
    · exact List.mem_singleton.mp hq ▸ ⟨hwidth, htakes⟩
  · intro hfalse
    rw [show w.headerWritten = false from hfalse] at hheader
    cases hheader
  · rw [Ledger.rows, ← List.append_assoc, List.length_append, h.tally]
    rfl
  · intro hfalse
    rw [show w.closed = true from hfalse] at hopen
    cases hopen

/-- A row goes into the draft, and its page to the sink once it is full. -/
theorem tracks_addRow (h : w.Tracks s shapes limit l) (hroom : l.held.length < limit)
    (hheader : w.headerWritten = true) (hopen : w.closed = false) (r : Row) :
    (∃ w', w.addRow r = (.ok (), w') ∧ w'.Tracks s shapes limit (l.add limit r.slots) ∧
        (l.add limit r.slots).held.length < limit ∧ w'.closed = false ∧
          Draft.HasRoom shapes l.held r.slots) ∨
      ∃ e w', w.addRow r = (.error e, w') ∧ w'.Tracks s shapes limit l ∧
        ¬ (r.slots.length = shapes.length ∧ Draft.Takes shapes r.slots ∧
          Draft.HasRoom shapes l.held r.slots) ∧
        (r.slots.length = shapes.length → Draft.Takes shapes r.slots → ∃ store, e = .overflow store) := by
  have hlanes : w.draft.lanes.length = shapes.length := by rw [← h.ofShapes, Draft.length_shapes]
  have hfull : w.draft.isFull = false := by
    rw [Draft.isFull, h.ofLimit, h.draft.count]
    exact decide_eq_false (Nat.not_le.mpr hroom)
  rcases h.draft.appendRow r with ⟨d, happend, hholds, halike, hwidth, -, htakes, hspace⟩ |
    ⟨e, d, happend, hholds, halike, hnot, hcause⟩
  · rw [h.ofShapes] at htakes hspace
    have htracks := h.drafted hheader hopen hholds halike (hwidth.trans hlanes) htakes
    generalize hw : ({ w with draft := d, tally.rows := w.tally.rows + 1 } : Writer Memory) = w₁ at htracks
    have hadd : w.addRow r = if d.isFull then w₁.flushPage else (.ok (), w₁) := by
      rw [addRow, happend, ← hw]
    -- the draft is full exactly when the page of the ledger is
    have hcount : d.isFull = decide (limit ≤ l.held.length + 1) := by
      rw [Draft.isFull, halike.limit, h.ofLimit, hholds.count, List.length_append,
        List.length_singleton]
    have hstill : w₁.headerWritten = true ∧ w₁.closed = false := hw ▸ ⟨hheader, hopen⟩
    refine Or.inl ?_
    rw [hadd, hcount, Ledger.add]
    by_cases hpage : limit ≤ l.held.length + 1
    · obtain ⟨w', hflush, htracks', -, hopen'⟩ := tracks_flushPage htracks hstill.1 hstill.2
        (by rw [List.length_append, List.length_singleton]; omega)
      rw [Ledger.flush, if_neg (by simp)] at htracks'
      rw [if_pos hpage, decide_eq_true hpage, if_pos rfl]
      exact ⟨w', hflush, htracks', Nat.lt_of_le_of_lt (Nat.zero_le _) hroom, hopen', hspace⟩
    · rw [if_neg hpage, decide_eq_false hpage]
      refine ⟨w₁, rfl, htracks, ?_, hstill.2, hspace⟩
      rw [List.length_append, List.length_singleton]
      omega
  · rw [Draft.Accepts, h.ofShapes, hlanes] at hnot
    rw [h.ofShapes, hlanes] at hcause
    refine Or.inr ⟨e, _, by rw [addRow, happend], h.redrafted hholds halike, fun hall => hnot ?_,
      fun hwidth => hcause hwidth hfull⟩
    exact ⟨hall.1, hfull, hall.2⟩

/-! ### Whole calls -/

/-- A row is taken if it enters the draft and there is room for it behind the rows held; else a writer
still has the rows it had. -/
theorem tracks_writeRow (h : w.Tracks s shapes limit l) (hroom : l.held.length < limit) (r : Row) :
    (∃ w', w.writeRow r = (.ok (), w') ∧ w'.Tracks s shapes limit (l.add limit r.slots) ∧
        (l.add limit r.slots).held.length < limit ∧ w'.closed = false ∧
        Draft.HasRoom shapes l.held r.slots) ∨
      ∃ e w', w.writeRow r = (.error e, w') ∧ w'.Tracks s shapes limit l ∧
        ¬ (w.closed = false ∧ r.Enters s shapes ∧ Draft.HasRoom shapes l.held r.slots) ∧
        (w.closed = false → r.Enters s shapes → ∃ store, e = .overflow store) := by
  by_cases hclosed : w.closed = true
  · have hnot : w.closed ≠ false := by rw [hclosed]; decide
    exact Or.inr ⟨_, w, by rw [writeRow, if_pos hclosed], h, fun hall => hnot hall.1,
      fun hopen => absurd hopen hnot⟩
  by_cases hwidth : r.width ≠ w.schema.width
  · have hnot : ¬ r.Enters s shapes := fun henters => hwidth (h.ofSchema ▸ henters.width)
    exact Or.inr ⟨_, w, by rw [writeRow, if_neg hclosed, if_pos hwidth], h, fun hall => hnot hall.2.1,
      fun _ henters => absurd henters hnot⟩
  by_cases hprint : r.schema.fingerprint ≠ w.schema.fingerprint
  · have hnot : ¬ r.Enters s shapes := fun henters => hprint (h.ofSchema ▸ henters.fingerprint)
    exact Or.inr ⟨_, w, by rw [writeRow, if_neg hclosed, if_neg hwidth, if_pos hprint], h,
      fun hall => hnot hall.2.1, fun _ henters => absurd henters hnot⟩
  have hopen : w.closed = false := Bool.eq_false_iff.mpr hclosed
  obtain ⟨mid, hheader, htracks, hwritten, hsame⟩ := tracks_writeHeader h
  rw [writeRow, if_neg hclosed, if_neg hwidth, if_neg hprint, hheader, andThen_ok]
  rcases tracks_addRow htracks hroom hwritten (hsame.trans hopen) r with
    ⟨w', hadd, htracks', hroom', hopen', hspace⟩ | ⟨e, w', hadd, htracks', hnot, hcause⟩
  · exact Or.inl ⟨w', hadd, htracks', hroom', hopen', hspace⟩
  · exact Or.inr ⟨e, w', hadd, htracks', fun hall => hnot ⟨hall.2.1.length, hall.2.1.takes, hall.2.2⟩,
      fun _ henters => hcause henters.length henters.takes⟩

/-- What the last record went through is no business of the ledger. -/
theorem Tracks.scratch (h : w.Tracks s shapes limit l) (kept : Option Row) :
    ({ w with scratch := kept } : Writer Memory).Tracks s shapes limit l :=
  ⟨h.ofSchema, h.ofShapes, h.ofLimit, h.draft, h.pages, h.typed, h.unwritten, h.sink, h.tally, h.closed⟩

theorem tracks_flush (h : w.Tracks s shapes limit l) (hroom : l.held.length < limit)
    (hopen : w.closed = false) :
    ∃ w', w.flush = (.ok (), w') ∧ w'.Tracks s shapes limit l.flush ∧ w'.closed = false := by
  obtain ⟨mid, hheader, htracks, hwritten, hsame⟩ := tracks_writeHeader h
  obtain ⟨w', hflush, htracks', -, hopen'⟩ :=
    tracks_flushPage htracks hwritten (hsame.trans hopen) (Nat.le_of_lt hroom)
  refine ⟨w', ?_, htracks', hopen'⟩
  have hclosed : ¬ w.closed = true := Bool.eq_false_iff.mp hopen
  rw [Writer.flush, if_neg hclosed, hheader, andThen_ok, hflush, andThen_ok]
  rfl

theorem tracks_close (h : w.Tracks s shapes limit l) (hroom : l.held.length < limit) :
    ∃ w', w.close = (.ok (), w') ∧ w'.Tracks s shapes limit l.flush ∧ w'.closed = true := by
  by_cases hclosed : w.closed = true
  · -- closing again does nothing
    refine ⟨w, by rw [close, if_pos hclosed], ?_, hclosed⟩
    rwa [Ledger.flush, if_pos (h.closed hclosed)]
  have hopen : w.closed = false := Bool.eq_false_iff.mpr hclosed
  obtain ⟨mid, hheader, htracks, hwritten, hsame⟩ := tracks_writeHeader h
  obtain ⟨w', hflush, htracks', hwritten', hopen'⟩ :=
    tracks_flushPage htracks hwritten (hsame.trans hopen) (Nat.le_of_lt hroom)
  have hclose : w.close = (.ok (), { w' with
      sink := ⟨w'.sink.written ++ [0]⟩
      tally := { w'.tally with bytes := w'.tally.bytes + 1 }
      closed := true }) := by
    rw [close, if_neg hclosed, hheader, andThen_ok, hflush, andThen_ok, emit_eq, andThen_ok]
    rfl
  refine ⟨_, hclose, ?_, rfl⟩
  refine ⟨htracks'.ofSchema, htracks'.ofShapes, htracks'.ofLimit, htracks'.draft, htracks'.pages,
    htracks'.typed, ?_, ?_, ?_, fun _ => Ledger.held_flush l⟩
  · intro hfalse
    rw [show w'.headerWritten = false from hfalse] at hwritten'
    cases hwritten'
  · intro _
    show w'.sink.written ++ [0] = _
    rw [htracks'.sink hwritten', hopen']
    simp [mark]
  · simp only [htracks'.tally, List.length_append, List.length_singleton]

/-- **Each call keeps writer and ledger in step**, and leaves room in the draft. -/
theorem tracks_step (h : w.Tracks s shapes limit l) (hroom : l.held.length < limit) (c : WriterCall) :
    (w.step c).2.Tracks s shapes limit (l.after limit c (w.step c).1) ∧
      (l.after limit c (w.step c).1).held.length < limit := by
  cases c with
  | row r =>
    rcases tracks_writeRow h hroom r with
      ⟨w', hw, htracks, hroom', -⟩ | ⟨e, w', hw, htracks, -, -⟩
    · rw [step, hw]
      exact ⟨htracks, hroom'⟩
    · rw [step, hw]
      exact ⟨htracks, hroom⟩
  | record b x =>
    -- the record goes through a row, and the row is written like any other
    rw [step, writeRecord, Binding.fill_reuse]
    cases hfill : b.fill x (Row.blank b.schema) with
    | mk result r =>
      cases result with
      | error e => exact ⟨h.scratch _, hroom⟩
      | ok u =>
        have hrow : (WriterCall.record b x).row? = some r := by rw [WriterCall.row?, hfill]
        rcases tracks_writeRow h hroom r with
          ⟨w', hw, htracks, hroom', -⟩ | ⟨e, w', hw, htracks, -, -⟩
        · simp only [hw, Ledger.after, hrow]
          exact ⟨htracks.scratch _, hroom'⟩
        · simp only [hw, Ledger.after]
          exact ⟨htracks.scratch _, hroom⟩
  | flush =>
    have hpos : l.flush.held.length < limit := by
      rw [Ledger.held_flush]
      exact Nat.lt_of_le_of_lt (Nat.zero_le _) hroom
    by_cases hclosed : w.closed = true
    · rw [step, Writer.flush, if_pos hclosed]
      exact ⟨h, hroom⟩
    · obtain ⟨w', hw, htracks, -⟩ := tracks_flush h hroom (Bool.eq_false_iff.mpr hclosed)
      rw [step, hw]
      exact ⟨htracks, hpos⟩
  | close =>
    obtain ⟨w', hw, htracks, -⟩ := tracks_close h hroom
    rw [step, hw]
    refine ⟨htracks, ?_⟩
    show l.flush.held.length < limit
    rw [Ledger.held_flush]
    exact Nat.lt_of_le_of_lt (Nat.zero_le _) hroom

/-- **So does any run of calls.** -/
theorem tracks_run (h : w.Tracks s shapes limit l) (hroom : l.held.length < limit)
    (calls : List WriterCall) :
    (w.run calls).Tracks s shapes limit (w.follow limit l calls) ∧
      (w.follow limit l calls).held.length < limit := by
  induction calls generalizing w l with
  | nil => exact ⟨h, hroom⟩
  | cons c calls ih =>
    obtain ⟨hstep, hroom'⟩ := tracks_step h hroom c
    exact ih hstep hroom'

theorem run_concat {σ : Type} [ByteSink σ] (w : Writer σ) (calls : List WriterCall) (c : WriterCall) :
    w.run (calls ++ [c]) = ((w.run calls).step c).2 := by
  rw [run, List.foldl_append]
  rfl

theorem results_append {σ : Type} [ByteSink σ] (w : Writer σ) (calls more : List WriterCall) :
    w.results (calls ++ more) = w.results calls ++ (w.run calls).results more := by
  induction calls generalizing w with
  | nil => rfl
  | cons c calls ih => exact congrArg _ (ih _)

theorem accepted_concat (w : Writer Memory) (calls : List WriterCall) (c : WriterCall) :
    w.accepted (calls ++ [c]) = w.accepted calls ++ c.taken ((w.run calls).step c).1 := by
  induction calls generalizing w with
  | nil => exact List.append_nil _
  | cons c' calls ih =>
    rw [List.cons_append, accepted, ih, ← List.append_assoc]
    rfl

/-- Of calls that all succeed the ledger is a matter of the calls alone. -/
theorem follow_of_results {w : Writer Memory} {calls : List WriterCall}
    (h : ∀ result ∈ w.results calls, result = .ok ()) (limit : Nat) (l : Ledger) :
    w.follow limit l calls = l.afterAll limit calls := by
  induction calls generalizing w l with
  | nil => rfl
  | cons c calls ih =>
    obtain ⟨hfirst, hrest⟩ := List.forall_mem_cons.mp h
    rw [follow, ih hrest, hfirst]
    rfl

/-- The rows in the ledger are the accepted ones. -/
theorem rows_follow (w : Writer Memory) (limit : Nat) (l : Ledger) (calls : List WriterCall) :
    (w.follow limit l calls).rows = l.rows ++ w.accepted calls := by
  induction calls generalizing w l with
  | nil => simp [follow, accepted]
  | cons c calls ih => rw [follow, ih, Ledger.rows_after, accepted, List.append_assoc]

/-- A writer that is closed stays as it is. -/
theorem step_of_closed {σ : Type} [ByteSink σ] (w : Writer σ) (hclosed : w.closed = true) (c : WriterCall) :
    (w.step c).2.sink = w.sink ∧ (w.step c).2.tally = w.tally ∧ (w.step c).2.closed = true := by
  have hrow : ∀ r, w.writeRow r = (.error (.misuse .writerClosed), w) := fun r => by
    rw [writeRow, if_pos hclosed]
  cases c with
  | row r =>
    rw [step, hrow]
    exact ⟨rfl, rfl, hclosed⟩
  | record b x =>
    rw [step, writeRecord]
    split
    · exact ⟨rfl, rfl, hclosed⟩
    · rw [hrow]
      exact ⟨rfl, rfl, hclosed⟩
  | flush =>
    rw [step, Writer.flush, if_pos hclosed]
    exact ⟨rfl, rfl, hclosed⟩
  | close =>
    rw [step, close, if_pos hclosed]
    exact ⟨rfl, rfl, hclosed⟩

theorem run_of_closed (w : Writer Memory) (hclosed : w.closed = true) (calls : List WriterCall) :
    (w.run calls).sink = w.sink ∧ (w.run calls).tally = w.tally := by
  induction calls generalizing w with
  | nil => exact ⟨rfl, rfl⟩
  | cons c calls ih =>
    obtain ⟨hsink, htally, hclosed'⟩ := step_of_closed w hclosed c
    obtain ⟨hsink', htally'⟩ := ih (w.step c).2 hclosed'
    exact ⟨hsink'.trans hsink, htally'.trans htally⟩

/-! ### From the start -/

/-- A writer that has written nothing is as an empty ledger says. -/
theorem tracks_start (h : Opened s settings w) : ∃ layout, s.layout = .ok layout ∧
    w.Tracks s (s.shapes layout) settings.pageRows .empty ∧ 0 < settings.pageRows := by
  obtain ⟨-, d, hd, rfl⟩ := opened_start h
  obtain ⟨hpos, -, hlimit, layout, hl, hshapes⟩ := Draft.of_make hd
  refine ⟨layout, hl, ⟨rfl, hshapes, hlimit, Draft.holds_make hd, ?_, ?_, fun _ => ⟨rfl, rfl, rfl⟩, ?_,
    rfl, fun _ => rfl⟩, hpos⟩
  · exact fun p hp => absurd hp List.not_mem_nil
  · exact fun r hr => absurd hr List.not_mem_nil
  · exact fun hfalse => by cases hfalse

/-- A writer that was closed has written its stream. -/
theorem tracks_closed (h : Opened s settings w) (calls : List WriterCall) :
    ∃ layout, s.layout = .ok layout ∧
      (w.run (calls ++ [.close])).Tracks s (s.shapes layout) settings.pageRows
        (w.follow settings.pageRows .empty (calls ++ [.close])) ∧
      (w.run (calls ++ [.close])).closed = true ∧ ((w.run calls).step .close).1 = .ok () := by
  obtain ⟨layout, hl, hstart, hpos⟩ := tracks_start h
  obtain ⟨hbefore, hroom⟩ := tracks_run hstart hpos calls
  obtain ⟨w', hclose, -, hclosed⟩ := tracks_close hbefore hroom
  have hstep : (w.run calls).step .close = (.ok (), w') := hclose
  refine ⟨layout, hl, (tracks_run hstart hpos _).1, ?_, by rw [hstep]⟩
  rw [run_concat, hstep]
  exact hclosed

end Writer
end Columnar
