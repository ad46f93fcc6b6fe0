import Columnar.Proofs.Stream.Calls
import Columnar.Proofs.Stream.Refusals

/-!
# Counters of both ends

A writer counts a row when it has put it into its draft, a page when the sink has taken
its frame, and bytes as the sink takes them.  A reader counts a row when it has found it,
a page when it has loaded it, and the bytes that it supposes the page to have taken.  At
the end of a stream the two agree all the same.

What is to be counted follows from the bytes of the stream.  What a reader has counted
and what it has still to count make up one total: the rows of the page at hand have still
to be counted, though the page and its bytes have been, and each load moves one frame
from what is to come to what was counted.

## Main definitions

* `Reader.Counts` — what the bytes of a stream add to the counters.
* `Reader.Due` — the total that the counters of a reader are to come to.
* `Ledger.Packed` — all pages but the next one are full.

## Main results

* `Reader.Due.seek`, `Reader.Due.call` — looking for a row and calls keep the total.
* `Reader.Due.tallies` — at the end of the stream the counters have come to it.
* `Ledger.Packed.pages_flush` — the number of pages, if all but the last are full.
* `Writer.tallies_of_closed` — **a reader comes to the counters of the writer.**
-/

namespace Columnar

namespace Reader

variable {s : Schema} {layout : List (Kind × Storage)} {limit : Nat} {r : Reader} {total : Tally}
  {c : ReaderCall} {calls : List ReaderCall}

/-! ### What is to be counted -/

/-- What the bytes after a header add to the counters: the rows of the pages whose frames they begin
with, these pages, their frames, and the mark of the end if there is one. -/
inductive Counts (layout : List (Kind × Storage)) (limit : Nat) : List UInt8 → Tally → Prop where
  | nil : Counts layout limit [] .zero
  | mark (extra : List UInt8) : Counts layout limit (0 :: extra) ⟨0, 0, 1⟩
  | frame {body rest : List UInt8} {p : Page} {t : Tally} (pos : body ≠ [])
      (buffer : body.length ≤ Feed.maxBuffer) (within : body.length ≤ limit)
      (decoded : Page.decode layout limit body = .ok p) (later : Counts layout limit rest t) :
      Counts layout limit (Writer.frame body ++ rest)
        ⟨p.rows + t.rows, 1 + t.pages, (Writer.frame body).length + t.bytes⟩

/-- What the counters of a reader are to come to: to what they are at the end, and before that to what
the rows of the page at hand and the bytes of the source add to them. -/
structure Due (r : Reader) (s : Schema) (layout : List (Kind × Storage)) (limit : Nat) (total : Tally) :
    Prop where
  sound : r.Sound s limit none
  poisoned : r.poisoned = false
  split : (r.finished = true ∧ r.feed.remaining = 0 ∧ r.tally = total) ∨
    (r.finished = false ∧ ∃ bytes t, r.source = .ofBytes bytes ∧ Counts layout limit bytes t ∧
      total = ⟨r.tally.rows + r.feed.remaining + t.rows, r.tally.pages + t.pages,
        r.tally.bytes + t.bytes⟩)

theorem Due.rows_le (h : r.Due s layout limit total) : r.tally.rows ≤ total.rows := by
  rcases h.split with ⟨-, -, rfl⟩ | ⟨-, bytes, t, -, -, rfl⟩
  · exact Nat.le_refl _
  · exact Nat.le_trans (Nat.le_add_right _ _) (Nat.le_add_right _ _)

/-- The row that a reader keeps for records does not count. -/
theorem Due.keeping (h : r.Due s layout limit total) (kept : Option Row) :
    Due { r with scratch := kept } s layout limit total :=
  ⟨h.sound.keeping kept, h.poisoned, h.split⟩

/-- What looking for a row comes to.  A row is counted as it is found, so the total is kept by finding
it and handing it out. -/
inductive Tallied (s : Schema) (layout : List (Kind × Storage)) (limit : Nat) (total : Tally)
    (r : Reader) : Except Failure Bool × Reader → Prop where
  | row {r' : Reader} (due : (r'.handed (.ok true)).Due s layout limit total)
      (rows : r'.tally.rows = r.tally.rows + 1) : Tallied s layout limit total r (.ok true, r')
  | ended {r' : Reader} (due : r'.Due s layout limit total) (finished : r'.finished = true) :
      Tallied s layout limit total r (.ok false, r')

/-- A row of the page at hand is counted and handed out. -/
theorem tallied_held (h : r.Due s layout limit total) (hrem : r.feed.remaining ≠ 0) :
    Tallied s layout limit total r r.seek := by
  have hlt : r.feed.next < r.feed.rows := Nat.lt_of_sub_ne_zero hrem
  have hless := Feed.remaining_advanced hlt
  have hadvanced := h.sound.advanced hlt r.scratch
  rw [seek_of_remaining hrem]
  refine .row ⟨⟨hadvanced.ready, hadvanced.limit, hadvanced.fault, hadvanced.next_le, hadvanced.page⟩,
    h.poisoned, ?_⟩ rfl
  rcases h.split with ⟨-, hspent, -⟩ | ⟨hopen, bytes, t, hsource, hcounts, rfl⟩
  · exact absurd hspent hrem
  · refine Or.inr ⟨hopen, bytes, t, hsource, hcounts, ?_⟩
    show (⟨r.tally.rows + r.feed.remaining + t.rows, _, _⟩ : Tally) =
      ⟨r.tally.rows + 1 + r.feed.advanced.remaining + t.rows, _, _⟩
    rw [← hless]
    congr 1
    omega

/-- Where there is no more page to load, the counters have come to their total, with the mark if it was
there. -/
theorem tallied_of_load_end (h : r.Sound s limit none) (hp : r.poisoned = false)
    (hf : r.finished = false) (hrem : r.feed.remaining = 0) {feed : Feed} {source : Source}
    (hload : r.feed.load r.source = (.ok false, feed, source)) {n : Nat}
    (hmark : (if feed.terminated then 1 else 0) = n)
    (htotal : total = ⟨r.tally.rows, r.tally.pages, r.tally.bytes + n⟩) :
    Tallied s layout limit total r r.seek := by
  obtain ⟨hloaded, -⟩ := Feed.loaded_load h.ready r.source
  rw [hload] at hloaded
  have hspent : feed.remaining = 0 := by
    rw [Feed.remaining, hloaded.rows rfl]
    exact Nat.zero_sub _
  rw [seek_of_load_end hrem hf hload]
  refine .ended ⟨h.load hload _ _ _, hp, Or.inl ⟨rfl, hspent, ?_⟩⟩ rfl
  rw [htotal, hmark]

/-- Between two pages, what is to be counted is in the bytes of the source. -/
theorem tallied_between (hl : s.layout = .ok layout) {bytes : List UInt8} {t : Tally}
    (hcounts : Counts layout limit bytes t) (h : r.Sound s limit none) (hp : r.poisoned = false)
    (hf : r.finished = false) (hrem : r.feed.remaining = 0) (hsource : r.source = .ofBytes bytes)
    (htotal : total = ⟨r.tally.rows + t.rows, r.tally.pages + t.pages, r.tally.bytes + t.bytes⟩) :
    Tallied s layout limit total r r.seek := by
  induction hcounts generalizing r with
  | nil =>
    have hload := r.feed.load_nil
    rw [← hsource] at hload
    exact tallied_of_load_end h hp hf hrem hload rfl htotal
  | mark extra =>
    have hload := r.feed.load_mark extra
    rw [← hsource] at hload
    exact tallied_of_load_end h hp hf hrem hload rfl htotal
  | @frame body rest p t pos buffer within decoded later ih =>
    have hready : r.feed.layout = layout := Except.ok.inj (h.ready.layout.symm.trans hl)
    rw [← hready, ← h.limit] at decoded
    obtain ⟨feed, hdecode, -, -, hbody, hholds, hnext⟩ := Feed.decode_of_ok h.ready decoded
    have hload := Feed.load_frame pos buffer (h.limit.symm ▸ within) rest
    rw [← hsource, hdecode] at hload
    have hsound : (r.paged feed (.ofBytes rest)).Sound s limit none := h.load hload _ _ _
    -- the page and its frame are counted by the load, and its rows are at hand
    have hrows : feed.remaining = p.rows := by
      rw [Feed.remaining, hnext, hholds.rows, Nat.sub_zero]
    have hframe : frameLength feed.pageLength = (Writer.frame body).length := by
      rw [Feed.pageLength, hbody, frameLength, Writer.frame, List.length_append, Leb128.length_encode]
    have htotal' : total = ⟨(r.paged feed (.ofBytes rest)).tally.rows + feed.remaining + t.rows,
        (r.paged feed (.ofBytes rest)).tally.pages + t.pages,
        (r.paged feed (.ofBytes rest)).tally.bytes + t.bytes⟩ := by
      rw [htotal, hrows]
      simp only [paged, hframe, Nat.add_assoc]
    rw [seek_of_load_page hrem hf hload]
    suffices hfurther : Tallied s layout limit total (r.paged feed (.ofBytes rest))
        (r.paged feed (.ofBytes rest)).seek by
      generalize (r.paged feed (.ofBytes rest)).seek = found at hfurther
      cases hfurther with
      | row due rows => exact .row due rows
      | ended due finished => exact .ended due finished
    by_cases hmore : feed.remaining ≠ 0
    · exact tallied_held ⟨hsound, hp, Or.inr ⟨hf, rest, t, rfl, later, htotal'⟩⟩ hmore
    · -- a page without rows is passed over
      have hspent := Decidable.not_not.mp hmore
      rw [hspent] at htotal'
      exact ih hsound hp hf hspent rfl htotal'

/-- **Looking for a row keeps the total.** -/
theorem Due.seek (hl : s.layout = .ok layout) (h : r.Due s layout limit total) :
    Tallied s layout limit total r r.seek := by
  by_cases hrem : r.feed.remaining ≠ 0
  · exact tallied_held h hrem
  have hrem := Decidable.not_not.mp hrem
  rcases h.split with ⟨hfinished, -, -⟩ | ⟨hopen, bytes, t, hsource, hcounts, htotal⟩
  · rw [seek_of_finished hrem hfinished]
    exact .ended h hfinished
  · rw [hrem] at htotal
    exact tallied_between hl hcounts h.sound h.poisoned hopen hrem hsource htotal

/-! ### Any calls -/

/-- **A call keeps the total.**  It gives a row, or has come to the end. -/
theorem Due.call (hl : s.layout = .ok layout) (h : r.Due s layout limit total) (hc : c.Suits s) :
    (r.call c).2.Due s layout limit total ∧
      ((r.call c).1 = .row ∧ (r.call c).2.tally.rows = r.tally.rows + 1 ∨
        (r.call c).1 = .ended ∧ (r.call c).2.finished = true) := by
  obtain ⟨kept, hcall⟩ := call_of_seek h.sound h.poisoned hc
  have htallied := h.seek hl
  rw [hcall]
  generalize r.seek = found at htallied
  cases htallied with
  | row due rows => exact ⟨due.keeping kept, Or.inl ⟨rfl, rows⟩⟩
  | ended due finished => exact ⟨due.keeping kept, Or.inr ⟨rfl, finished⟩⟩

/-- At the end the counters have come to the total, and stay. -/
theorem Due.run_of_finished (h : r.Due s layout limit total) (hf : r.finished = true)
    (calls : List ReaderCall) : (r.run calls).tally = total := by
  rcases h.split with ⟨-, hspent, htally⟩ | ⟨hopen, -⟩
  · obtain ⟨kept, hrun⟩ := (Stuck.exhausted hf hspent h.poisoned).run calls
    rw [hrun]
    exact htally
  · rw [hf] at hopen
    cases hopen

/-- What a reader says of a stream, and counts of it. -/
structure Tallies (r : Reader) (s : Schema) (total : Tally) : Prop where
  /-- There are rows, and then there is the end. -/
  replies : ∀ calls, ∀ reply ∈ r.replies calls, reply = .row ∨ reply = .ended
  /-- The end comes once there are more calls than rows. -/
  reaches : ∀ calls, (∀ c ∈ calls, c.Suits s) → total.rows < calls.length → .ended ∈ r.replies calls
  /-- The counters have come to their total then, whatever is asked for after that. -/
  final : ∀ calls, .ended ∈ r.replies calls → (r.run calls).tally = total

theorem Due.replies (hl : s.layout = .ok layout) (h : r.Due s layout limit total) :
    ∀ reply ∈ r.replies calls, reply = .row ∨ reply = .ended := by
  induction calls generalizing r with
  | nil => exact fun reply hreply => absurd hreply List.not_mem_nil
  | cons c calls ih =>
    by_cases hc : c.Suits r.schema
    · rw [replies_cons_of_suits hc]
      obtain ⟨hdue, hreply⟩ := h.call hl (h.sound.schema ▸ hc)
      exact List.forall_mem_cons.mpr ⟨hreply.imp And.left And.left, ih hdue⟩
    · rw [replies_cons_of_not_suits hc]
      obtain ⟨kept, hkept⟩ := keeps_of_not_suits hc
      rw [hkept]
      exact ih (h.keeping kept)

theorem Due.reaches (hl : s.layout = .ok layout) (h : r.Due s layout limit total)
    (hcalls : ∀ c ∈ calls, c.Suits s) (hmany : total.rows < r.tally.rows + calls.length) :
    .ended ∈ r.replies calls := by
  induction calls generalizing r with
  | nil => exact absurd hmany (Nat.not_lt.mpr h.rows_le)
  | cons c calls ih =>
    obtain ⟨hc, hrest⟩ := List.forall_mem_cons.mp hcalls
    rw [replies_cons_of_suits (h.sound.schema.symm ▸ hc)]
    obtain ⟨hdue, ⟨-, hrows⟩ | ⟨hended, -⟩⟩ := h.call hl hc
    · refine List.mem_cons_of_mem _ (ih hdue hrest ?_)
      rw [List.length_cons] at hmany
      omega
    · rw [hended]
      exact List.mem_cons_self

theorem Due.final (hl : s.layout = .ok layout) (h : r.Due s layout limit total)
    (hended : .ended ∈ r.replies calls) : (r.run calls).tally = total := by
  induction calls generalizing r with
  | nil => exact absurd hended List.not_mem_nil
  | cons c calls ih =>
    rw [run_cons]
    by_cases hc : c.Suits r.schema
    · rw [replies_cons_of_suits hc] at hended
      obtain ⟨hdue, ⟨hrow, -⟩ | ⟨-, hfinished⟩⟩ := h.call hl (h.sound.schema ▸ hc)
      · rw [hrow] at hended
        refine ih hdue ?_
        simpa using hended
      · exact hdue.run_of_finished hfinished calls
    · rw [replies_cons_of_not_suits hc] at hended
      obtain ⟨kept, hkept⟩ := keeps_of_not_suits hc
      rw [hkept] at hended ⊢
      exact ih (h.keeping kept) hended

/-- **At the end of the stream the counters have come to their total.** -/
theorem Due.tallies (hl : s.layout = .ok layout) (h : r.Due s layout limit total)
    (hrows : r.tally.rows = 0) : r.Tallies s total where
  replies := fun _ => h.replies hl
  reaches := fun _ hcalls hmany => h.reaches hl hcalls (by rwa [hrows, Nat.zero_add])
  final := fun _ hended => h.final hl hended

/-- The frames of pages within the limit, and the mark of the end, add the rows of the pages, the pages,
and their bytes. -/
theorem counts_frames (hs : s.Finalized) (hl : s.layout = .ok layout)
    {pages : List (List (List (Option Value)))}
    (hpages : ∀ p ∈ pages, Page.Written s (s.shapes layout) p ∧ Page.Within s (s.shapes layout) limit p) :
    Counts layout limit (Writer.frames (s.shapes layout) pages ++ [0])
      ⟨pages.flatten.length, pages.length, (Writer.frames (s.shapes layout) pages ++ [0]).length⟩ := by
  induction pages with
  | nil => exact .mark []
  | cons rows pages ih =>
    obtain ⟨⟨hwritten, hwithin⟩, hrest⟩ := List.forall_mem_cons.mp hpages
    obtain ⟨p, hp, hspells⟩ :=
      Page.decode_spell hs hl hwritten.admits hwritten.count hwritten.length hwithin.2
    have hbuffer := Nat.le_of_lt_succ hwritten.length
    have hcounts := Counts.frame (Page.spell_ne_nil _ _) hbuffer hwithin.1 hp (ih hrest)
    rw [hspells.count, ← List.length_append, ← List.length_append, ← List.append_assoc, Nat.add_comm 1,
      ← List.flatten_cons] at hcounts
    exact hcounts

end Reader

/-! ### Pages that are full -/

namespace Ledger

/-- All pages have as many rows as a page takes, and the rows that are held are fewer. -/
structure Packed (l : Ledger) (limit : Nat) : Prop where
  rows : l.rows.length = limit * l.pages.length + l.held.length
  room : l.held.length < limit

variable {l : Ledger} {limit : Nat}

theorem packed_empty (h : 0 < limit) : empty.Packed limit := ⟨rfl, h⟩

theorem Packed.add (h : l.Packed limit) (slots : List (Option Value)) :
    (l.add limit slots).Packed limit := by
  have hrows := h.rows
  have hroom := h.room
  have hmore : (l.add limit slots).rows.length = l.rows.length + 1 := by
    rw [rows_add, List.length_append, List.length_singleton]
  by_cases hfull : limit ≤ l.held.length + 1
  · have hadd : l.add limit slots = ⟨l.pages ++ [l.held ++ [slots]], []⟩ := if_pos hfull
    refine ⟨?_, by rw [hadd]; exact Nat.lt_of_le_of_lt (Nat.zero_le _) hroom⟩
    rw [hmore, hadd, hrows]
    simp only [List.length_append, List.length_singleton, List.length_nil, Nat.mul_add, Nat.mul_one]
    omega
  · have hadd : l.add limit slots = ⟨l.pages, l.held ++ [slots]⟩ := if_neg hfull
    refine ⟨?_, ?_⟩
    · rw [hmore, hadd, hrows]
      simp only [List.length_append, List.length_singleton]
      omega
    · rw [hadd, List.length_append, List.length_singleton]
      omega

/-- **The number of pages is that of the rows, divided by what a page takes and rounded up.** -/
theorem Packed.pages_flush (h : l.Packed limit) :
    l.flush.pages.length = (l.rows.length + limit - 1) / limit := by
  have hroom := h.room
  have hpos : 0 < limit := Nat.lt_of_le_of_lt (Nat.zero_le _) hroom
  rw [h.rows]
  by_cases hheld : l.held = []
  · have hflush : l.flush = l := if_pos hheld
    have hsum : limit * l.pages.length + l.held.length + limit - 1 =
        (limit - 1) + limit * l.pages.length := by
      rw [hheld, List.length_nil]
      omega
    rw [hflush, hsum, Nat.add_mul_div_left _ _ hpos, Nat.div_eq_of_lt (by omega), Nat.zero_add]
  · have hflush : l.flush = ⟨l.pages ++ [l.held], []⟩ := if_neg hheld
    have hsome := List.length_pos_iff.mpr hheld
    have hsum : limit * l.pages.length + l.held.length + limit - 1 =
        (l.held.length - 1) + limit * (l.pages.length + 1) := by
      rw [Nat.mul_add, Nat.mul_one]
      omega
    rw [hflush, hsum, Nat.add_mul_div_left _ _ hpos, Nat.div_eq_of_lt (by omega), Nat.zero_add,
      List.length_append, List.length_singleton]

end Ledger

namespace Writer

variable {s : Schema} {shapes : List Lane.Shape} {layout : List (Kind × Storage)} {limit : Nat}
  {w : Writer Memory} {l : Ledger}

/-- Pages of a writer that is not flushed: all are full until it is closed, and then only the last one
may not be. -/
def Unflushed (limit : Nat) (w : Writer Memory) (l : Ledger) : Prop :=
  (w.closed = false ∧ l.Packed limit) ∨
    w.closed = true ∧ l.held = [] ∧ l.pages.length = (l.rows.length + limit - 1) / limit

/-- One more row leaves an open writer with full pages. -/
theorem Unflushed.add (h : Unflushed limit w l) (hopen : w.closed = false) {w' : Writer Memory}
    (hopen' : w'.closed = false) (slots : List (Option Value)) :
    Unflushed limit w' (l.add limit slots) := by
  rcases h with ⟨-, hpacked⟩ | ⟨hclosed, -⟩
  · exact Or.inl ⟨hopen', hpacked.add slots⟩
  · rw [hopen] at hclosed
    cases hclosed

/-- Closing leaves one more page, if rows were held. -/
theorem Unflushed.close (h : Unflushed limit w l) {w' : Writer Memory} (hclosed' : w'.closed = true) :
    Unflushed limit w' l.flush := by
  refine Or.inr ⟨hclosed', Ledger.held_flush l, ?_⟩
  rw [Ledger.rows_flush]
  rcases h with ⟨-, hpacked⟩ | ⟨-, hheld, hpages⟩
  · exact hpacked.pages_flush
  · have hflush : l.flush = l := if_pos hheld
    rw [hflush]
    exact hpages

/-- At the end there are as many pages as the rows fill. -/
theorem Unflushed.pages_eq (h : Unflushed limit w l) (hclosed : w.closed = true) :
    l.pages.length = (l.rows.length + limit - 1) / limit := by
  rcases h with ⟨hopen, -⟩ | ⟨-, -, hpages⟩
  · rw [hclosed] at hopen
    cases hopen
  · exact hpages

section

variable [TextHash]

theorem unflushed_step (h : w.Tracks s shapes limit l) (hroom : l.held.length < limit)
    (hunflushed : Unflushed limit w l) {c : WriterCall} (hc : c ≠ .flush) :
    Unflushed limit (w.step c).2 (l.after limit c (w.step c).1) := by
  by_cases hfits : c.Fits s shapes l.held w.closed
  · obtain ⟨hok, hcloses⟩ := step_of_fits h hroom hfits
    rw [hok]
    cases c with
    | row r =>
      obtain ⟨hopen, -⟩ := hfits
      exact hunflushed.add hopen hcloses r.slots
    | record b x =>
      obtain ⟨hopen, r, hr, -⟩ := hfits
      rw [Ledger.after, hr]
      exact hunflushed.add hopen hcloses r.slots
    | flush => exact absurd rfl hc
    | close => exact hunflushed.close hcloses
  · -- a call that is refused does nothing
    obtain ⟨⟨e, he⟩, hclosed⟩ := step_of_not_fits h hroom hfits
    rw [he]
    rcases hunflushed with ⟨hopen, hpacked⟩ | ⟨hclosed', hrest⟩
    · exact Or.inl ⟨hclosed.trans hopen, hpacked⟩
    · exact Or.inr ⟨hclosed.trans hclosed', hrest⟩

theorem unflushed_run (h : w.Tracks s shapes limit l) (hroom : l.held.length < limit)
    (hunflushed : Unflushed limit w l) {calls : List WriterCall} (hcalls : ∀ c ∈ calls, c ≠ .flush) :
    Unflushed limit (w.run calls) (w.follow limit l calls) := by
  induction calls generalizing w l with
  | nil => exact hunflushed
  | cons c calls ih =>
    obtain ⟨hc, hrest⟩ := List.forall_mem_cons.mp hcalls
    obtain ⟨htracks, hroom'⟩ := tracks_step h hroom c
    exact ih htracks hroom' (unflushed_step h hroom hunflushed hc) hrest

/-! ### The two ends -/

/-- **A reader of what a closed writer has written comes to its counters.** -/
theorem Tracks.tallies (hs : s.Finalized) (hl : s.layout = .ok layout)
    (h : w.Tracks s (s.shapes layout) limit l) (hclosed : w.closed = true) (hlimit : limit < 2 ^ 64)
    (hlen : w.sink.written.length < 2 ^ 63) {settings : Settings} (hsettings : settings.check = .ok ())
    (hwithin : ∀ p ∈ l.pages, Page.Within s (s.shapes layout) settings.maxPageBytes p) :
    ∃ r, Reader.make (.ofBytes w.sink.written) s settings = .ok r ∧ r.Tallies s w.tally := by
  have hwritten := h.written hs hl hclosed hlimit hlen
  have hsink := h.sink_of_closed hclosed
  obtain ⟨r, hr, hbetween⟩ := Reader.make_of_header hs hsettings (frames (s.shapes layout) l.pages ++ [0])
  rw [← List.append_assoc] at hr
  obtain ⟨hsound, -, hfinished, hpoisoned, hheader, -⟩ := Reader.sound_make hr
  have hcounts := Reader.counts_frames hs hl fun p hp => ⟨hwritten p hp, hwithin p hp⟩
  -- the header is counted, and so will be the frames and the mark
  have hflat : l.pages.flatten = l.rows := by rw [Ledger.rows, h.closed hclosed, List.append_nil]
  have hbytes : w.sink.written.length =
      Header.byteLength + (frames (s.shapes layout) l.pages ++ [0]).length := by
    rw [hsink, spell, List.append_assoc, List.length_append, Header.length_toBytes_ofFingerprint]
  have htotal : w.tally = ⟨r.tally.rows + r.feed.remaining + l.pages.flatten.length,
      r.tally.pages + l.pages.length,
      r.tally.bytes + (frames (s.shapes layout) l.pages ++ [0]).length⟩ := by
    rw [h.tally, hheader, hbetween.spent, hflat, hbytes]
    simp
  rw [hsink]
  refine ⟨r, hr, Reader.Due.tallies hl ⟨hsound, hpoisoned, ?_⟩ (by rw [hheader])⟩
  exact Or.inr ⟨hfinished, _, _, hbetween.source, hcounts, htotal⟩

/-- **Writer and reader count alike.**  A writer over memory that was closed, whatever calls it got before,
has counted the rows that it accepted and the bytes in its sink, and, if it was never flushed, as many
pages as these rows fill, the last one perhaps in part.  A reader of the stream opens it, and once it has
come to the end, it has counted the same rows, pages and bytes. -/
theorem tallies_of_closed (hs : s.Finalized) (hl : s.layout = .ok layout) {ws : Settings}
    {w₀ : Writer Memory} (hw : Opened s ws w₀) (calls : List WriterCall) :
    let w := w₀.run (calls ++ [.close])
    w.tally.rows = (w₀.accepted (calls ++ [.close])).length ∧
      w.tally.bytes = w.sink.written.length ∧
      ((∀ c ∈ calls, c ≠ .flush) →
        w.tally.pages = (w.tally.rows + ws.pageRows - 1) / ws.pageRows) ∧
      ∀ rs : Settings, rs.check = .ok () → ws.pageRows < 2 ^ 64 → w.sink.written.length < 2 ^ 63 →
        (∀ p ∈ (w₀.follow ws.pageRows .empty (calls ++ [.close])).pages,
          Page.Within s (s.shapes layout) rs.maxPageBytes p) →
        ∃ r, Reader.make (.ofBytes w.sink.written) s rs = .ok r ∧ r.Tallies s w.tally := by
  intro w
  obtain ⟨layout', hl', hstart, hpos⟩ := tracks_start hw
  obtain rfl := Except.ok.inj (hl.symm.trans hl')
  obtain ⟨layout', hl', htracks, hclosed, -⟩ := tracks_closed hw calls
  obtain rfl := Except.ok.inj (hl.symm.trans hl')
  have hunflushed : (∀ c ∈ calls ++ [.close], c ≠ .flush) → Unflushed ws.pageRows w
      (w₀.follow ws.pageRows .empty (calls ++ [.close])) :=
    unflushed_run hstart hpos (Or.inl ⟨closed_of_opened hw, Ledger.packed_empty hpos⟩)
  have haccepted := rows_follow w₀ ws.pageRows .empty (calls ++ [.close])
  generalize w₀.follow ws.pageRows .empty (calls ++ [.close]) = l at htracks hunflushed haccepted ⊢
  have hrows : l.rows = w₀.accepted (calls ++ [.close]) := haccepted
  have htally : w.tally = ⟨l.rows.length, l.pages.length, w.sink.written.length⟩ := htracks.tally
  refine ⟨by rw [htally, hrows], by rw [htally], ?_, ?_⟩
  · intro hcalls
    have hnone : ∀ c ∈ calls ++ [.close], c ≠ .flush := by
      intro c hc
      rcases List.mem_append.mp hc with hc | hc
      · exact hcalls c hc
      · simp [List.mem_singleton.mp hc]
    rw [htally]
    exact (hunflushed hnone).pages_eq hclosed
  · intro rs hrs hpageRows hlen hwithin
    exact htracks.tallies hs hl hclosed hpageRows hlen hrs hwithin

end

open scoped Builtin

/-- Calls that write five rows, where four fill a page. -/
def fiveRows : List WriterCall := List.replicate 5 (.row (Row.blank Schema.counter))

theorem tallies_of_closed_fiveRows : (counting.run (fiveRows ++ [.close])).tally.rows = 5 ∧
    (counting.run (fiveRows ++ [.close])).tally.pages = 2 ∧
    ∃ r, Reader.make (.ofBytes (counting.run (fiveRows ++ [.close])).sink.written) Schema.counter .small =
        .ok r ∧
      (r.run (List.replicate 6 .view)).tally = (counting.run (fiveRows ++ [.close])).tally := by
  have hl : Schema.counter.layout = .ok [(.uint64, .uint)] := rfl
  obtain ⟨-, -, hpages, hreads⟩ :=
    tallies_of_closed Schema.finalized_counter hl opened_counting fiveRows
  have hnone : ∀ c ∈ fiveRows, c ≠ .flush := by
    intro c hc
    simp [List.eq_of_mem_replicate hc]
  have hrows : (counting.run (fiveRows ++ [.close])).tally.rows = 5 := by decide +kernel
  obtain ⟨r, hr, htallies⟩ := hreads .small rfl (by decide) (by decide +kernel) (by decide +kernel)
  have hsuits : ∀ c ∈ List.replicate 6 ReaderCall.view, c.Suits Schema.counter := by
    intro c hc row hrow
    rw [List.eq_of_mem_replicate hc] at hrow
    cases hrow
  have hended := htallies.reaches (List.replicate 6 .view) hsuits (by rw [hrows]; decide)
  refine ⟨hrows, ?_, r, hr, htallies.final _ hended⟩
  rw [hpages hnone, hrows]
  rfl

end Writer
end Columnar
