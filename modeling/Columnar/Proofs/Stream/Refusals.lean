import Columnar.Proofs.Stream.Delivery

/-!
# Refused calls

Whether a call on a writer over memory succeeds is a matter of the call, of the
writer's schema, of whether the writer is closed, and of the rows that it holds, as
there has to be room behind them.  What a refused call leaves behind is nothing that
a ledger tells: it may have written the header, appended to some of the columns and
cut them back, or filled the row that records go through.  So the calls that are
refused can as well be left out.

## Main definitions

* `WriterCall.Fits` — a call that succeeds.
* `Writer.succeeded` — the calls that returned success.
* `Writer.Level` — two writers with one ledger.

## Main results

* `Writer.step_of_fits`, `Writer.step_of_not_fits` — which calls succeed.
* `Writer.level_run` — a writer stays level with one that is spared the refused calls.
* `Writer.run_succeeded` — sink and counters are those of the calls that succeeded.
-/

namespace Columnar

namespace WriterCall

/-- A call that succeeds on a writer that is closed or not and holds some rows.  To close always does. -/
def Fits (s : Schema) (shapes : List Lane.Shape) (held : List (List (Option Value))) (closed : Bool) :
    WriterCall → Prop
  | close => True
  | flush => closed = false
  | c => closed = false ∧ ∃ r, c.row? = some r ∧ r.Enters s shapes ∧ Draft.HasRoom shapes held r.slots

/-- The call that closes. -/
def closes : WriterCall → Bool
  | close => true
  | row _ | record _ _ | flush => false

end WriterCall

namespace Writer

/-! ### Calls that leave a writer open or closed -/

section
variable {σ : Type}

/-- A step after a success keeps what the first one kept. -/
theorem closed_andThen {p : Except Failure Unit × Writer σ}
    {f : Writer σ → Except Failure Unit × Writer σ} (hf : ∀ w, (f w).2.closed = w.closed) :
    (andThen p f).2.closed = p.2.closed := by
  rcases p with ⟨e | u, w⟩
  · rfl
  · exact hf w

variable [ByteSink σ]

@[simp] theorem closed_emit (w : Writer σ) (bs : List UInt8) : (w.emit bs).2.closed = w.closed := by
  unfold emit
  split <;> rfl

@[simp] theorem closed_writeHeader (w : Writer σ) : w.writeHeader.2.closed = w.closed := by
  unfold writeHeader
  split
  · rfl
  · rw [closed_andThen fun _ => rfl, closed_emit]

@[simp] theorem closed_flushPage (w : Writer σ) : w.flushPage.2.closed = w.closed := by
  unfold flushPage
  split
  · rfl
  · split
    · rfl
    · rw [closed_andThen fun _ => rfl, closed_emit]

variable [TextHash]

/-- The calls that returned success, in order. -/
def succeeded (w : Writer σ) : List WriterCall → List WriterCall
  | [] => []
  | c :: calls =>
    match (w.step c).1 with
    | .ok () => c :: (w.step c).2.succeeded calls
    | .error _ => (w.step c).2.succeeded calls

theorem succeeded_of_ok {w : Writer σ} {c : WriterCall} (h : (w.step c).1 = .ok ())
    (calls : List WriterCall) : w.succeeded (c :: calls) = c :: (w.step c).2.succeeded calls := by
  simp only [succeeded, h]

theorem succeeded_of_error {w : Writer σ} {c : WriterCall} {e : Failure} (h : (w.step c).1 = .error e)
    (calls : List WriterCall) : w.succeeded (c :: calls) = (w.step c).2.succeeded calls := by
  simp only [succeeded, h]

@[simp] theorem closed_addRow (w : Writer σ) (r : Row) : (w.addRow r).2.closed = w.closed := by
  unfold addRow
  split
  · rfl
  · simp only
    split
    · exact closed_flushPage _
    · rfl

@[simp] theorem closed_writeRow (w : Writer σ) (r : Row) : (w.writeRow r).2.closed = w.closed := by
  unfold writeRow
  split
  · rfl
  · split
    · rfl
    · split
      · rfl
      · rw [closed_andThen fun w => closed_addRow w r, closed_writeHeader]

/-- A row that is written was written to an open writer, whose schema it suits. -/
theorem suits_of_writeRow {w : Writer σ} {r : Row} (h : (w.writeRow r).1 = .ok ()) :
    w.closed = false ∧ r.Suits w.schema := by
  unfold writeRow at h
  split at h
  · cases h
  · next hclosed =>
    split at h
    · cases h
    · next hwidth =>
      split at h
      · cases h
      · next hprint =>
        exact ⟨Bool.eq_false_iff.mpr hclosed, Decidable.not_not.mp hwidth, Decidable.not_not.mp hprint⟩

end

/-! ### Which calls succeed -/

section

variable [TextHash]

variable {s : Schema} {shapes : List Lane.Shape} {limit : Nat} {w v : Writer Memory} {l : Ledger}

/-- A row can be written exactly if the writer is open, the row enters its draft, and there is room for it
there. -/
theorem writeRow_eq_ok_iff (h : w.Tracks s shapes limit l) (hroom : l.held.length < limit) (r : Row) :
    (w.writeRow r).1 = .ok () ↔
      w.closed = false ∧ r.Enters s shapes ∧ Draft.HasRoom shapes l.held r.slots := by
  constructor
  · intro hok
    obtain ⟨hopen, hsuits⟩ := suits_of_writeRow hok
    rcases tracks_writeRow h hroom r with ⟨w', hw, htracks, -, -, hspace⟩ | ⟨e, w', hw, -, -, -⟩
    · -- the ledger has the row, so it is as the draft takes them
      have hmem : r.slots ∈ (l.add limit r.slots).rows := by
        rw [Ledger.rows_add]
        exact List.mem_append_right _ List.mem_cons_self
      obtain ⟨hlength, htakes⟩ := htracks.typed _ hmem
      rw [h.ofSchema] at hsuits
      exact ⟨hopen, ⟨hsuits.width, hsuits.fingerprint, hlength, htakes⟩, hspace⟩
    · rw [hw] at hok
      cases hok
  · intro hall
    rcases tracks_writeRow h hroom r with ⟨w', hw, -, -, -, -⟩ | ⟨e, w', -, -, hnot, -⟩
    · rw [hw]
    · exact absurd hall hnot

theorem writeRow_refused (h : w.Tracks s shapes limit l) (hroom : l.held.length < limit) {r : Row}
    (hnot : ¬ (w.closed = false ∧ r.Enters s shapes ∧ Draft.HasRoom shapes l.held r.slots)) :
    ∃ e, (w.writeRow r).1 = .error e := by
  rcases hw : (w.writeRow r).1 with e | u
  · exact ⟨e, rfl⟩
  · exact absurd ((writeRow_eq_ok_iff h hroom r).mp hw) hnot

/-- A record that makes a row comes to what the row does, and one that makes none is refused. -/
theorem writeRecord_eq {α : Type} (w : Writer Memory) (b : Binding α) (x : α) :
    (w.writeRecord b x).2.closed = w.closed ∧
      match (WriterCall.record b x).row? with
      | some r => (w.writeRecord b x).1 = (w.writeRow r).1
      | none => ∃ e, (w.writeRecord b x).1 = .error e := by
  rw [writeRecord, Binding.fill_reuse, WriterCall.row?]
  rcases b.fill x (Row.blank b.schema) with ⟨e | u, r⟩
  · exact ⟨rfl, e, rfl⟩
  · exact ⟨closed_writeRow w r, rfl⟩

/-- **A call that fits succeeds.** -/
theorem step_of_fits (h : w.Tracks s shapes limit l) (hroom : l.held.length < limit) {c : WriterCall}
    (hc : c.Fits s shapes l.held w.closed) : (w.step c).1 = .ok () ∧ (w.step c).2.closed = c.closes := by
  cases c with
  | row r =>
    obtain ⟨hopen, q, hq, henters⟩ := hc
    obtain rfl := Option.some.inj hq
    exact ⟨(writeRow_eq_ok_iff h hroom r).mpr ⟨hopen, henters⟩, (closed_writeRow w r).trans hopen⟩
  | record b x =>
    obtain ⟨hopen, r, hr, henters⟩ := hc
    obtain ⟨hclosed, hresult⟩ := writeRecord_eq w b x
    rw [hr] at hresult
    exact ⟨hresult.trans ((writeRow_eq_ok_iff h hroom r).mpr ⟨hopen, henters⟩), hclosed.trans hopen⟩
  | flush =>
    obtain ⟨w', hw, -, hopen'⟩ := tracks_flush h hroom hc
    rw [step, hw]
    exact ⟨rfl, hopen'⟩
  | close =>
    obtain ⟨w', hw, -, hclosed'⟩ := tracks_close h hroom
    rw [step, hw]
    exact ⟨rfl, hclosed'⟩

/-- **Any other call is refused**, and leaves the writer open or closed as it was. -/
theorem step_of_not_fits (h : w.Tracks s shapes limit l) (hroom : l.held.length < limit) {c : WriterCall}
    (hc : ¬ c.Fits s shapes l.held w.closed) :
    (∃ e, (w.step c).1 = .error e) ∧ (w.step c).2.closed = w.closed := by
  cases c with
  | row r =>
    refine ⟨writeRow_refused h hroom ?_, closed_writeRow w r⟩
    rintro ⟨hopen, henters⟩
    exact hc ⟨hopen, r, rfl, henters⟩
  | record b x =>
    obtain ⟨hclosed, hresult⟩ := writeRecord_eq w b x
    refine ⟨?_, hclosed⟩
    cases hr : (WriterCall.record b x).row? with
    | none =>
      rw [hr] at hresult
      exact hresult
    | some r =>
      rw [hr] at hresult
      have hrefused : ∃ e, (w.writeRow r).1 = .error e := by
        apply writeRow_refused h hroom
        rintro ⟨hopen, henters⟩
        exact hc ⟨hopen, r, hr, henters⟩
      obtain ⟨e, he⟩ := hrefused
      exact ⟨e, hresult.trans he⟩
  | flush =>
    have hclosed : w.closed = true := Bool.not_eq_false _ ▸ hc
    rw [step, Writer.flush, if_pos hclosed]
    exact ⟨⟨_, rfl⟩, rfl⟩
  | close => exact absurd trivial hc

/-! ### Leaving out the refused calls -/

/-- Two writers with one ledger, both open or both closed. -/
structure Level (s : Schema) (shapes : List Lane.Shape) (limit : Nat) (w v : Writer Memory)
    (l : Ledger) : Prop where
  left : w.Tracks s shapes limit l
  right : v.Tracks s shapes limit l
  closed : w.closed = v.closed

/-- A call that succeeds does so on both writers, and leaves them level. -/
theorem level_step_of_ok (h : Level s shapes limit w v l) (hroom : l.held.length < limit) {c : WriterCall}
    (hc : c.Fits s shapes l.held w.closed) :
    (v.step c).1 = .ok () ∧ Level s shapes limit (w.step c).2 (v.step c).2 (l.after limit c (.ok ())) := by
  obtain ⟨hleft, hcloses⟩ := step_of_fits h.left hroom hc
  obtain ⟨hright, hcloses'⟩ := step_of_fits h.right hroom (h.closed ▸ hc)
  refine ⟨hright, ?_, ?_, hcloses.trans hcloses'.symm⟩
  · exact hleft ▸ (tracks_step h.left hroom c).1
  · exact hright ▸ (tracks_step h.right hroom c).1

/-- After a call that was refused a writer is level with the writers it was level with before. -/
theorem level_step_of_error (h : Level s shapes limit w v l) (hroom : l.held.length < limit)
    {c : WriterCall} (hc : ¬ c.Fits s shapes l.held w.closed) : Level s shapes limit (w.step c).2 v l := by
  obtain ⟨⟨e, he⟩, hclosed⟩ := step_of_not_fits h.left hroom hc
  have htracks := (tracks_step h.left hroom c).1
  rw [he] at htracks
  exact ⟨htracks, h.right, hclosed.trans h.closed⟩

/-- **A writer stays level with one that is spared the refused calls**, and on that one all succeed. -/
theorem level_run (h : Level s shapes limit w v l) (hroom : l.held.length < limit)
    (calls : List WriterCall) :
    (∃ l', Level s shapes limit (w.run calls) (v.run (w.succeeded calls)) l') ∧
      ∀ result ∈ v.results (w.succeeded calls), result = .ok () := by
  -- the writer that is spared the calls only moves on with the ones that succeed
  induction calls generalizing w v l with
  | nil => exact ⟨⟨l, h⟩, fun result hresult => absurd hresult List.not_mem_nil⟩
  | cons c calls ih =>
    have hroom' := (tracks_step h.left hroom c).2
    by_cases hc : c.Fits s shapes l.held w.closed
    · obtain ⟨hok, -⟩ := step_of_fits h.left hroom hc
      obtain ⟨hok', hlevel⟩ := level_step_of_ok h hroom hc
      rw [hok] at hroom'
      obtain ⟨hrun, hresults⟩ := ih hlevel hroom'
      rw [succeeded_of_ok hok]
      exact ⟨hrun, List.forall_mem_cons.mpr ⟨hok', hresults⟩⟩
    · obtain ⟨⟨e, he⟩, -⟩ := step_of_not_fits h.left hroom hc
      rw [succeeded_of_error he]
      exact ih (level_step_of_error h hroom hc) (by rwa [he] at hroom')

/-- Level writers that are closed have the same bytes in their sinks, and count alike. -/
theorem Level.same (h : Level s shapes limit w v l) (hclosed : w.closed = true) :
    v.sink = w.sink ∧ v.tally = w.tally := by
  have hleft := h.left.sink_of_closed hclosed
  have hright := h.right.sink_of_closed (h.closed ▸ hclosed)
  have hsink : v.sink.written = w.sink.written := hright.trans hleft.symm
  refine ⟨?_, ?_⟩
  · rcases hv : v.sink with ⟨bytes⟩
    rcases hw : w.sink with ⟨bytes'⟩
    rw [hv, hw] at hsink
    exact congrArg Memory.mk hsink
  · rw [h.right.tally, h.left.tally, hsink]

/-- **Refused calls leave no trace.**  A writer that makes only the calls that succeed, out of any calls
that end in a close, comes to the same bytes and the same counters, and none of its calls is refused. -/
theorem run_succeeded {settings : Settings} {w₀ : Writer Memory} (h : Opened s settings w₀)
    (calls : List WriterCall) :
    let all := calls ++ [.close]
    (w₀.run (w₀.succeeded all)).sink = (w₀.run all).sink ∧
      (w₀.run (w₀.succeeded all)).tally = (w₀.run all).tally ∧
      ∀ result ∈ w₀.results (w₀.succeeded all), result = .ok () := by
  intro all
  obtain ⟨layout, hl, hstart, hpos⟩ := tracks_start h
  obtain ⟨-, -, -, hclosed, -⟩ := tracks_closed h calls
  obtain ⟨⟨l, hlevel⟩, hresults⟩ := level_run ⟨hstart, hstart, rfl⟩ hpos all
  obtain ⟨hsink, htally⟩ := hlevel.same hclosed
  exact ⟨hsink, htally, hresults⟩

end

open scoped Builtin

/-- Calls of which all but the second and the first close are refused: a value of a wrong storage, a
record that gives one, a row without slots, and what comes after the close. -/
def refusing : List WriterCall :=
  [.row ((Row.blank Schema.counter).put 0 (some (.bool true))), .row (Row.blank Schema.counter),
    .record ⟨Schema.counter, [some ⟨fun n : Nat => some (.text (toString n)), fun n _ => n⟩]⟩ 5,
    .row ⟨⟨"Counter", []⟩, [], rfl⟩, .close, .flush, .row (Row.blank Schema.counter)]

theorem run_succeeded_refusing :
    (counting.results (refusing ++ [.close])).map Except.isOk =
        [false, true, false, false, true, false, false, true] ∧
      (counting.succeeded (refusing ++ [.close])).length = 3 ∧
      (counting.run (counting.succeeded (refusing ++ [.close]))).sink =
        (counting.run (refusing ++ [.close])).sink ∧
      (counting.run (counting.succeeded (refusing ++ [.close]))).tally =
        (counting.run (refusing ++ [.close])).tally := by
  obtain ⟨hsink, htally, -⟩ := run_succeeded opened_counting refusing
  exact ⟨by decide +kernel, by decide +kernel, hsink, htally⟩

end Writer
end Columnar
