import Columnar.Proofs.Stream.Delivery

/-!
# Writing and reading back

Rows of a finalized schema whose slots were set one by one are accepted by a writer,
and a reader hands them out again.  Slots that were not set come back with the
default of their field.  The pages that the rows went into show only where a reader
has a lower limit than they need: it gives the rows of the pages before.

Two bounds are those of the machine: a page has fewer than `2 ^ 64` rows, and a
stream in memory fewer than `2 ^ 63` bytes.  A third one is that of the columns: there
has to be room for each row behind those of its page.

## Main definitions

* `Row.Filled` — a row that was made by setting and unsetting slots.
* `Ledger.Roomy` — there is room for the rows of some calls.
* `Reader.delivered` — what reading some pages under a limit comes to.

## Main results

* `Writer.run_writes` — all calls succeed.
* `Reader.delivers_of_writes` — the rows are read back.
-/

namespace Columnar

/-- A row that was made from a blank one by setting and unsetting slots. -/
inductive Row.Filled (s : Schema) : Row → Prop where
  | blank : Filled s (Row.blank s)
  | set {r r' : Row} {i : Nat} {v : Value} (h : Filled s r) (hset : r.set i v = .ok r') : Filled s r'
  | unset {r : Row} (h : Filled s r) (i : Nat) : Filled s (r.unset i)

theorem Row.Filled.admits {s : Schema} {r : Row} (h : r.Filled s) : r.schema = s ∧ s.Admits r.slots := by
  induction h with
  | blank => exact ⟨rfl, Row.admits_blank s⟩
  | set _ hset ih =>
    obtain ⟨hschema, hadmits⟩ := ih
    have hadmits' := Row.admits_set (hschema.symm ▸ hadmits) hset
    obtain ⟨rfl, -⟩ := Row.storage_of_set hset
    exact ⟨hschema, hschema ▸ hadmits'⟩
  | unset _ i ih =>
    obtain ⟨hschema, hadmits⟩ := ih
    exact ⟨hschema, hschema ▸ Row.admits_unset (hschema.symm ▸ hadmits) i⟩

/-- A call that writes a filled row of a schema, or a flush. -/
inductive WriterCall.Writes (s : Schema) : WriterCall → Prop where
  | row {r : Row} (h : r.Filled s) : Writes s (.row r)
  | flush : Writes s .flush

namespace Ledger

theorem rows_afterAll (limit : Nat) (l : Ledger) (calls : List WriterCall) :
    (l.afterAll limit calls).rows = l.rows ++ (calls.filterMap WriterCall.row?).map Row.slots := by
  induction calls generalizing l with
  | nil => simp [afterAll]
  | cons c calls ih =>
    have hrest := ih (l.after limit c (.ok ()))
    rw [rows_after, List.append_assoc] at hrest
    show ((l.after limit c (.ok ())).afterAll limit calls).rows = _
    rw [hrest, WriterCall.taken, List.filterMap_cons]
    cases c.row? with
    | none => rfl
    | some r => rfl

/-- There is room for the rows that some calls write behind those that wait then. -/
def Roomy (shapes : List Lane.Shape) (limit : Nat) : Ledger → List WriterCall → Prop
  | _, [] => True
  | l, c :: calls =>
    (∀ r ∈ c.row?, Draft.HasRoom shapes l.held r.slots) ∧
      Roomy shapes limit (l.after limit c (.ok ())) calls

end Ledger

namespace Writer

variable {s : Schema} {layout : List (Kind × Storage)} {limit : Nat} {w : Writer Memory} {l : Ledger}

/-- A filled row enters the draft of a writer of its schema. -/
theorem enters_of_filled (hs : s.Finalized) (hl : s.layout = .ok layout) {r : Row} (hr : r.Filled s) :
    r.Enters s (s.shapes layout) := by
  obtain ⟨hschema, hadmits⟩ := hr.admits
  obtain ⟨hwidth, htakes⟩ := (Draft.takes_iff_admits hs hl).mpr hadmits
  exact ⟨hschema ▸ r.slots_length, hschema ▸ rfl, hwidth, htakes⟩

variable [TextHash]

/-- A filled row is accepted that there is room for, and a flush succeeds, as long as the writer is
open. -/
theorem step_writes (hs : s.Finalized) (hl : s.layout = .ok layout)
    (h : w.Tracks s (s.shapes layout) limit l) (hroom : l.held.length < limit) (hopen : w.closed = false)
    {c : WriterCall} (hc : c.Writes s)
    (hspace : ∀ r ∈ c.row?, Draft.HasRoom (s.shapes layout) l.held r.slots) :
    (w.step c).1 = .ok () ∧ (w.step c).2.closed = false := by
  cases hc with
  | row hr =>
    rename_i r
    rcases tracks_writeRow h hroom r with ⟨w', hw, -, -, hopen', -⟩ | ⟨e, w', -, -, hnot, -⟩
    · rw [step, hw]
      exact ⟨rfl, hopen'⟩
    · exact absurd ⟨hopen, enters_of_filled hs hl hr, hspace r rfl⟩ hnot
  | flush =>
    obtain ⟨w', hw, -, hopen'⟩ := tracks_flush h hroom hopen
    rw [step, hw]
    exact ⟨rfl, hopen'⟩

/-- **All rows are accepted**, one after the other, if there is room for them. -/
theorem run_writes (hs : s.Finalized) (hl : s.layout = .ok layout)
    (h : w.Tracks s (s.shapes layout) limit l) (hroom : l.held.length < limit) (hopen : w.closed = false)
    {calls : List WriterCall} (hcalls : ∀ c ∈ calls, c.Writes s)
    (hspace : l.Roomy (s.shapes layout) limit calls) : ∀ result ∈ w.results calls, result = .ok () := by
  induction calls generalizing w l with
  | nil => exact fun result hresult => absurd hresult List.not_mem_nil
  | cons c calls ih =>
    obtain ⟨hc, hrest⟩ := List.forall_mem_cons.mp hcalls
    obtain ⟨hfirst, hothers⟩ := hspace
    obtain ⟨hresult, hopen'⟩ := step_writes hs hl h hroom hopen hc hfirst
    obtain ⟨htracks, hroom'⟩ := tracks_step h hroom c
    rw [hresult] at htracks hroom'
    exact List.forall_mem_cons.mpr ⟨hresult, ih htracks hroom' hopen' hrest hothers⟩

end Writer

namespace Reader

variable {s : Schema} {shapes : List Lane.Shape} {layout : List (Kind × Storage)} {limit : Nat}
  {pages : List (List (List (Option Value)))} {r : Reader} {row : Row}

/-- What reading some pages under a limit comes to: the rows of the pages before the first one that is
not within the limit, and a failure if there is one. -/
def delivered (s : Schema) (shapes : List Lane.Shape) (limit : Nat)
    (pages : List (List (List (Option Value)))) : Outcome where
  rows := (pages.takeWhile fun p => Page.Within s shapes limit p).flatten.map s.deliver
  failure := (pages.find? fun p => ¬ Page.Within s shapes limit p).map fun p =>
    .damaged (Page.refusal shapes limit p)

theorem delivered_of_within {p : List (List (Option Value))} (h : Page.Within s shapes limit p) :
    delivered s shapes limit (p :: pages) = (delivered s shapes limit pages).after (p.map s.deliver) := by
  simp [delivered, Outcome.after, h]

theorem delivered_of_beyond {p : List (List (Option Value))} (h : ¬ Page.Within s shapes limit p) :
    delivered s shapes limit (p :: pages) = .failed (.damaged (Page.refusal shapes limit p)) := by
  simp [delivered, Outcome.failed, h]

/-- Before the frames of some pages and the mark of the end, a reader delivers the pages. -/
theorem drain_eq_delivered (hs : s.Finalized) (hl : s.layout = .ok layout)
    (hpages : ∀ p ∈ pages, Page.Written s (s.shapes layout) p) {extra : List UInt8}
    (h : r.Between s limit (Writer.frames (s.shapes layout) pages ++ 0 :: extra)) (hrow : row.Suits s) :
    r.drain row = delivered s (s.shapes layout) limit pages := by
  induction pages generalizing r row with
  | nil => exact drain_mark h hrow
  | cons p pages ih =>
    obtain ⟨hwritten, hrest⟩ := List.forall_mem_cons.mp hpages
    rw [Writer.frames, List.flatMap_cons, List.append_assoc] at h
    -- reading stops at the first page that is not within the limit
    by_cases hwithin : Page.Within s (s.shapes layout) limit p
    · rw [delivered_of_within hwithin]
      exact drain_frame_within hs hl h hwritten hwithin (fun r' h' row' hrow' => ih hrest h' hrow') hrow
    · rw [delivered_of_beyond hwithin]
      exact drain_frame_beyond hl h hwritten hwithin hrow

/-- **Filled rows are read back.**  All calls of a writer succeed that write filled rows of a finalized
schema for which there is room in their pages, flush at any time and close at the end; and whatever comes
after the stream, a reader opens it and delivers its pages, into whatever row of the schema they are
read. -/
theorem delivers_of_writes [TextHash] (hs : s.Finalized) {ws rs : Settings} {w₀ : Writer Memory}
    (hw : Writer.Opened s ws w₀) (hrows : ws.pageRows < 2 ^ 64) (hrs : rs.check = .ok ())
    {calls : List WriterCall} (hcalls : ∀ c ∈ calls, c.Writes s) (hl : s.layout = .ok layout)
    (hspace : Ledger.empty.Roomy (s.shapes layout) ws.pageRows calls)
    (hlen : (w₀.run (calls ++ [.close])).sink.written.length < 2 ^ 63) (extra : List UInt8) :
    (∀ result ∈ w₀.results (calls ++ [.close]), result = .ok ()) ∧
      (Ledger.empty.afterAll ws.pageRows (calls ++ [.close])).pages.flatten =
        (calls.filterMap WriterCall.row?).map Row.slots ∧
      ∃ r, Reader.make (.ofBytes ((w₀.run (calls ++ [.close])).sink.written ++ extra)) s rs = .ok r ∧
        ∀ row : Row, row.Suits s → r.drain row = delivered s (s.shapes layout) rs.maxPageBytes
          (Ledger.empty.afterAll ws.pageRows (calls ++ [.close])).pages := by
  obtain ⟨layout', hl', hstart, hpos⟩ := Writer.tracks_start hw
  obtain rfl := Except.ok.inj (hl.symm.trans hl')
  obtain ⟨layout', hl', htracks, hclosed, hclose⟩ := Writer.tracks_closed hw calls
  obtain rfl := Except.ok.inj (hl.symm.trans hl')
  have hwrites := Writer.run_writes hs hl hstart hpos (Writer.closed_of_opened hw) hcalls hspace
  have hresults : ∀ result ∈ w₀.results (calls ++ [.close]), result = .ok () := by
    intro result hresult
    rw [Writer.results_append] at hresult
    rcases List.mem_append.mp hresult with hresult | hresult
    · exact hwrites result hresult
    · exact (List.mem_singleton.mp hresult).trans hclose
  rw [Writer.follow_of_results hresults] at htracks
  generalize hledger : Ledger.empty.afterAll ws.pageRows (calls ++ [.close]) = l at htracks
  have hsink := htracks.sink_of_closed hclosed
  have hwritten := htracks.written hs hl hclosed hrows hlen
  refine ⟨hresults, ?_, ?_⟩
  · -- a closed writer holds no rows, so all of them are in its pages
    have hall := Ledger.rows_afterAll ws.pageRows .empty (calls ++ [.close])
    rw [hledger, Ledger.rows, htracks.closed hclosed, List.append_nil, List.filterMap_append] at hall
    rw [hall]
    simp [Ledger.rows, Ledger.empty, WriterCall.row?]
  · obtain ⟨r, hr, hbetween⟩ := make_of_header hs hrs
      (Writer.frames (s.shapes layout) l.pages ++ 0 :: extra)
    refine ⟨r, ?_, fun row hrow => drain_eq_delivered hs hl hwritten hbetween hrow⟩
    rw [hsink, Writer.spell, List.append_assoc, List.append_assoc]
    exact hr

open scoped Builtin

/-- Calls that write two rows, one to a page; the second row has nothing set. -/
def twoPages : List WriterCall :=
  [.row ((Row.blank Schema.counter).put 0 (some (.uint 3))), .flush, .row (Row.blank Schema.counter)]

theorem delivers_of_writes_twoPages : ∃ r, Reader.make (.ofBytes
      ((Writer.counting.run (twoPages ++ [.close])).sink.written ++ [1, 2])) Schema.counter .small = .ok r ∧
    r.drain (Row.blank Schema.counter) = ⟨[[some (.uint 3)], [some (.uint 7)]], none⟩ := by
  have hset : (Row.blank Schema.counter).set 0 (.uint 3) =
      .ok ((Row.blank Schema.counter).put 0 (some (.uint 3))) := rfl
  have hcalls : ∀ c ∈ twoPages, c.Writes Schema.counter := by
    intro c hc
    rcases List.mem_cons.mp hc with rfl | hc
    · exact .row (.set .blank hset)
    · rcases List.mem_cons.mp hc with rfl | hc
      · exact .flush
      · exact List.mem_singleton.mp hc ▸ .row .blank
  have hsettings : Settings.small.check = .ok () := rfl
  have hl : Schema.counter.layout = .ok [(.uint64, .uint)] := rfl
  have hspace : Ledger.empty.Roomy (Schema.counter.shapes [(.uint64, .uint)]) Settings.small.pageRows
      twoPages := by
    simp only [twoPages, Ledger.Roomy, WriterCall.row?, Option.mem_def, Option.some.injEq, forall_eq']
    decide +kernel
  obtain ⟨-, -, r, hmake, hdrain⟩ := delivers_of_writes Schema.finalized_counter
    Writer.opened_counting (by decide) hsettings hcalls hl hspace (by decide +kernel) [1, 2]
  refine ⟨r, hmake, (hdrain _ (Row.suits_of_schema rfl)).trans ?_⟩
  decide +kernel

end Reader
end Columnar
