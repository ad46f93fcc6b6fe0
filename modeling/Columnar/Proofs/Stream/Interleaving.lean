import Columnar.Proofs.Stream.Calls

/-!
# Mixed ways of reading

The rows of a stream are those of its pages, one page after the other, as a feed gives
them that was made for nothing else than to load that page.  The four ways to ask a
reader for the next row all go through the same list of rows: whatever was asked
before, a call takes the next row off the list, and where there is none it says that
the stream has ended.  Pages without rows do not show.

## Main definitions

* `ReaderCall.Answers` — what a call is to say.
* `Reader.Yields` — the rows that the bytes of a stream hold.
* `Reader.Ahead` — the rows that a reader has still to hand out.

## Main results

* `Reader.answers_call` — a call takes a row off the list.
* `Reader.answers_run` — any calls go through the rows of the pages in order.
-/

namespace Columnar

/-- The call gives the row that is due, or says that there is none. -/
def ReaderCall.Answers (c : ReaderCall) (r : Reader) : Option (List (Option Value)) → Prop
  | some cells => c.Delivers r cells
  | none => c.Ends r

namespace Reader

variable {s : Schema} {layout : List (Kind × Storage)} {limit : Nat} {r : Reader} {c : ReaderCall}
  {calls : List ReaderCall} {rows : List (List (Option Value))}

/-! ### The rows that are still to come -/

/-- The rows that the bytes after a header hold: those of the pages whose frames they begin with, up to
the mark of the end or to the end itself. -/
inductive Yields (s : Schema) (layout : List (Kind × Storage)) (limit : Nat) :
    List UInt8 → List (List (Option Value)) → Prop where
  | nil : Yields s layout limit [] []
  | mark (extra : List UInt8) : Yields s layout limit (0 :: extra) []
  | frame {body rest : List UInt8} {p : Page} {rows : List (List (Option Value))} (pos : body ≠ [])
      (buffer : body.length ≤ Feed.maxBuffer) (within : body.length ≤ limit)
      (decoded : Page.decode layout limit body = .ok p) (later : Yields s layout limit rest rows) :
      Yields s layout limit (Writer.frame body ++ rest) (p.allRows s ++ rows)

/-- The rows that a reader has still to hand out: those of the page at hand, and those in the bytes of
its source. -/
structure Ahead (r : Reader) (s : Schema) (layout : List (Kind × Storage)) (limit : Nat)
    (rows : List (List (Option Value))) : Prop where
  sound : r.Sound s limit none
  poisoned : r.poisoned = false
  split : ∃ later, rows = r.feed.drain.rows ++ later ∧
    (r.finished = true ∧ later = [] ∨
      r.finished = false ∧ ∃ bytes, r.source = .ofBytes bytes ∧ Yields s layout limit bytes later)

/-- What looking for a row comes to: it finds one just if there is one ahead. -/
inductive Found (s : Schema) (layout : List (Kind × Storage)) (limit : Nat) :
    List (List (Option Value)) → Except Failure Bool × Reader → Prop where
  | row {r : Reader} {rows : List (List (Option Value))} (ahead : r.Ahead s layout limit rows)
      (left : r.feed.next < r.feed.rows) : Found s layout limit rows (.ok true, r)
  | ended {r : Reader} (ahead : r.Ahead s layout limit []) (finished : r.finished = true)
      (spent : r.feed.remaining = 0) : Found s layout limit [] (.ok false, r)

/-- A page at hand that has a row left is what is found. -/
theorem found_held (h : r.Ahead s layout limit rows) (hrem : r.feed.remaining ≠ 0) :
    Found s layout limit rows r.seek := by
  rw [seek_of_remaining hrem]
  have hsound := h.sound
  exact .row ⟨⟨hsound.ready, hsound.limit, hsound.fault, hsound.next_le, hsound.page⟩, h.poisoned,
    h.split⟩ (Nat.lt_of_sub_ne_zero hrem)

theorem drain_of_spent {f : Feed} (h : f.remaining = 0) : f.drain.rows = [] := by
  rw [Feed.drain_of_le (Nat.sub_eq_zero_iff_le.mp h)]
  rfl

/-- Where there is no more page to load, nothing is found. -/
theorem found_of_load_end (h : r.Sound s limit none) (hp : r.poisoned = false) (hf : r.finished = false)
    (hrem : r.feed.remaining = 0) {feed : Feed} {source : Source}
    (hload : r.feed.load r.source = (.ok false, feed, source)) : Found s layout limit [] r.seek := by
  obtain ⟨hloaded, hnext⟩ := Feed.loaded_load h.ready r.source
  rw [hload] at hloaded hnext
  have hspent : feed.remaining = 0 := by
    rw [Feed.remaining, hloaded.rows rfl]
    exact Nat.zero_sub _
  rw [seek_of_load_end hrem hf hload]
  refine .ended ⟨h.load hload _ _ _, hp, [], ?_, Or.inl ⟨rfl, rfl⟩⟩ rfl hspent
  rw [List.append_nil]
  exact (drain_of_spent hspent).symm

/-- Between two pages, what is found is in the bytes of the source. -/
theorem found_between (hl : s.layout = .ok layout) {bytes : List UInt8}
    (hyields : Yields s layout limit bytes rows) (h : r.Sound s limit none) (hp : r.poisoned = false)
    (hf : r.finished = false) (hrem : r.feed.remaining = 0) (hsource : r.source = .ofBytes bytes) :
    Found s layout limit rows r.seek := by
  induction hyields generalizing r with
  | nil =>
    have hload := r.feed.load_nil
    rw [← hsource] at hload
    exact found_of_load_end h hp hf hrem hload
  | mark extra =>
    have hload := r.feed.load_mark extra
    rw [← hsource] at hload
    exact found_of_load_end h hp hf hrem hload
  | @frame body rest p rows pos buffer within decoded later ih =>
    have hready : r.feed.layout = layout := Except.ok.inj (h.ready.layout.symm.trans hl)
    rw [← hready, ← h.limit] at decoded
    obtain ⟨feed, hdecode, hready', -, -, hholds, hnext⟩ := Feed.decode_of_ok h.ready decoded
    have hload := Feed.load_frame pos buffer (h.limit.symm ▸ within) rest
    rw [← hsource, hdecode] at hload
    rw [seek_of_load_page hrem hf hload]
    have hsound : (r.paged feed (.ofBytes rest)).Sound s limit none := h.load hload _ _ _
    have hdrain : feed.drain.rows = p.allRows s := by
      rw [Feed.drain_eq hready' hholds, hnext]
      rfl
    by_cases hmore : feed.remaining ≠ 0
    · refine found_held ⟨hsound, hp, rows, ?_, Or.inr ⟨hf, rest, rfl, later⟩⟩ hmore
      rw [← hdrain]
      rfl
    · -- a page without rows is passed over
      have hspent := Decidable.not_not.mp hmore
      rw [← hdrain, drain_of_spent hspent, List.nil_append]
      exact ih hsound hp hf hspent rfl

/-- **A row is found just if there is one ahead.** -/
theorem found_seek (hl : s.layout = .ok layout) (h : r.Ahead s layout limit rows) :
    Found s layout limit rows r.seek := by
  by_cases hrem : r.feed.remaining ≠ 0
  · exact found_held h hrem
  have hrem := Decidable.not_not.mp hrem
  obtain ⟨later, rfl, ⟨hfinished, rfl⟩ | ⟨hopen, bytes, hsource, hyields⟩⟩ := h.split
  · rw [drain_of_spent hrem, seek_of_finished hrem hfinished]
    rw [drain_of_spent hrem] at h
    exact .ended h hfinished hrem
  · rw [drain_of_spent hrem]
    exact found_between hl hyields h.sound h.poisoned hopen hrem hsource

/-! ### Any calls -/

/-- **A call takes the next row off those ahead**, whichever call it is. -/
theorem answers_call (hl : s.layout = .ok layout) (h : r.Ahead s layout limit rows) (hc : c.Suits s) :
    c.Answers r rows.head? ∧ (r.call c).2.Ahead s layout limit rows.tail := by
  have hadvance : r.advance = r.seek := advance_eq_seek h.poisoned
  have hschema := h.sound.schema
  rw [← hschema] at hc
  have hfound := found_seek hl h
  generalize r.seek = found at hadvance hfound
  cases hfound with
  | @row r' _ ahead left =>
    obtain ⟨p, hp⟩ := ahead.sound.page (Nat.zero_lt_of_lt left)
    have hready := ahead.sound.ready
    obtain ⟨hdelivers, kept, hcall⟩ := call_of_row hc hadvance hschema hready hp left
    obtain ⟨later, rfl, hlater⟩ := ahead.split
    have hdrain := congrArg Outcome.rows (Feed.drain_of_lt hready hp left)
    rw [hdrain, hcall]
    exact ⟨hdelivers, ahead.sound.advanced left kept, ahead.poisoned, later, rfl, hlater⟩
  | @ended r' ahead =>
    obtain ⟨hends, kept, hcall⟩ := call_of_end hc hadvance
    rw [hcall]
    exact ⟨hends, ahead.sound.keeping kept, ahead.poisoned, ahead.split⟩

/-- So any calls go through the rows ahead in order. -/
theorem answers_of_ahead (hl : s.layout = .ok layout) (h : r.Ahead s layout limit rows)
    (hcalls : ∀ c ∈ calls, c.Suits s) (k : Nat) (hk : calls[k]? = some c) :
    c.Answers (r.run (calls.take k)) rows[k]? := by
  induction calls generalizing r rows k with
  | nil => cases hk
  | cons first calls ih =>
    obtain ⟨hfirst, hrest⟩ := List.forall_mem_cons.mp hcalls
    obtain ⟨hanswer, hahead⟩ := answers_call hl h hfirst
    cases k with
    | zero =>
      cases hk
      rwa [List.head?_eq_getElem?] at hanswer
    | succ k =>
      have hk : calls[k]? = some c := hk
      have hanswers := ih hahead hrest k hk
      rwa [List.getElem?_tail] at hanswers

/-- The frames of bodies that a feed accepts hold the rows that it hands out for each of them. -/
theorem yields_frames {fresh : Feed} (hready : fresh.Ready s) {bodies : List (List UInt8)}
    (hbodies : ∀ body ∈ bodies, (fresh.loadBody body).1 = .ok ())
    {last : List UInt8} (hlast : Yields s fresh.layout fresh.limit last []) :
    Yields s fresh.layout fresh.limit (bodies.flatMap Writer.frame ++ last)
      (bodies.flatMap fun body => (fresh.loadBody body).2.drain.rows) := by
  induction bodies with
  | nil => exact hlast
  | cons body bodies ih =>
    obtain ⟨hbody, hrest⟩ := List.forall_mem_cons.mp hbodies
    obtain ⟨hwithin, hbuffer, p, hp, hdrain⟩ := Feed.page_of_loadBody hready hbody
    have hpos : body ≠ [] := by
      rintro rfl
      cases hp
    rw [List.flatMap_cons, List.append_assoc, List.flatMap_cons, hdrain]
    exact .frame hpos hbuffer hwithin hp (ih hrest)

/-- **All ways of reading give the same rows.**  Take any bodies of pages that a feed of the schema
accepts, their frames behind the header of a stream, and after them nothing or the mark of the end.  A
reader opens the stream, and whatever calls it gets, each is answered with the next of the rows that the
feed hands out for the bodies one by one, and with the end of the stream after the last of them. -/
theorem answers_run (hs : s.Finalized) {settings : Settings} (hsettings : settings.check = .ok ())
    {fresh : Feed} (hfresh : Feed.make s settings.maxPageBytes = .ok fresh) {bodies : List (List UInt8)}
    (hbodies : ∀ body ∈ bodies, (fresh.loadBody body).1 = .ok ()) {last : List UInt8}
    (hlast : last = [] ∨ ∃ extra, last = 0 :: extra) :
    (∀ body ∈ bodies, (fresh.loadBody body).2.drain.failure = none) ∧
      ∃ r, make (.ofBytes ((Header.ofFingerprint s.fingerprint).toBytes ++
          (bodies.flatMap Writer.frame ++ last))) s settings = .ok r ∧
        ∀ calls : List ReaderCall, (∀ c ∈ calls, c.Suits s) → ∀ (k : Nat) (c : ReaderCall),
          calls[k]? = some c → c.Answers (r.run (calls.take k))
            (bodies.flatMap fun body => (fresh.loadBody body).2.drain.rows)[k]? := by
  obtain ⟨hready, hsame, -, -⟩ := Feed.ready_make hfresh
  refine ⟨?_, ?_⟩
  · intro body hbody
    obtain ⟨-, -, p, -, hdrain⟩ := Feed.page_of_loadBody hready (hbodies body hbody)
    rw [hdrain]
  · have hends : Yields s fresh.layout fresh.limit last [] := by
      rcases hlast with rfl | ⟨extra, rfl⟩
      · exact .nil
      · exact .mark extra
    have hyields := yields_frames hready hbodies hends
    rw [hsame] at hyields
    obtain ⟨r, hr, hbetween⟩ := make_of_header hs hsettings (bodies.flatMap Writer.frame ++ last)
    obtain ⟨hsound, -, hfinished, hpoisoned, -, -⟩ := sound_make hr
    have hahead : r.Ahead s fresh.layout settings.maxPageBytes
        (bodies.flatMap fun body => (fresh.loadBody body).2.drain.rows) := by
      refine ⟨hsound, hpoisoned, _, ?_, Or.inr ⟨hfinished, _, hbetween.source, hyields⟩⟩
      rw [drain_of_spent hbetween.spent, List.nil_append]
    exact ⟨r, hr, fun calls hcalls k c hk => answers_of_ahead hready.layout hahead hcalls k hk⟩

/-- A page without rows, and one of two rows of which the second has nothing set. -/
def counters : List (List UInt8) := [[0, 1, 0, 0, 1, 0], [2, 1, 0, 0, 4, 1, 5, 3, 4]]

theorem answers_run_counters : ∃ r, make (.ofBytes
      ((Header.ofFingerprint Schema.counter.fingerprint).toBytes ++ (counters.flatMap Writer.frame ++ [])))
      Schema.counter ⟨1, 64, false⟩ = .ok r ∧
    ReaderCall.view.Answers (r.run [.next]) (some [some (.uint 7)]) ∧
    ReaderCall.next.Answers (r.run [.next, .view]) none := by
  have hsettings : Settings.check ⟨1, 64, false⟩ = .ok () := rfl
  have hfresh : Feed.make Schema.counter 64 = .ok Session.counting := rfl
  have hbodies : ∀ body ∈ counters, (Session.counting.loadBody body).1 = .ok () := by decide +kernel
  obtain ⟨-, r, hr, hanswers⟩ :=
    answers_run Schema.finalized_counter hsettings hfresh hbodies (Or.inl rfl)
  have hrows : (counters.flatMap fun body => (Session.counting.loadBody body).2.drain.rows) =
      [[some (.uint 3)], [some (.uint 7)]] := by decide +kernel
  rw [hrows] at hanswers
  have hcalls : ∀ c ∈ [ReaderCall.next, .view, .next], c.Suits Schema.counter := by
    intro c hc row hrow
    simp only [List.mem_cons, List.not_mem_nil, or_false] at hc
    rcases hc with rfl | rfl | rfl <;> cases hrow
  exact ⟨r, hr, hanswers _ hcalls 1 .view rfl, hanswers _ hcalls 2 .next rfl⟩

end Reader
end Columnar
